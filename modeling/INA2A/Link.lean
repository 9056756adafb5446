import INA2A.Lib.Mailbox
import INA2A.Receiving

/-! One direction of a connection, down to its buffers and queues (`transport_softroce.cc`,
`send_to_host`): the writers, which take turns under `write_mutex`, what the adapters do with
the posted work requests, and the reader.  The resources of the connection stand throughout. -/
namespace INA2A

open ByteBuffers BitWords EventMachine Mailbox

def memcpy (buf : List Byte) (offset : ℕ) (bs : List Byte) : List Byte :=
  buf.take offset ++ (bs ++ buf.drop (offset + bs.length))

theorem memcpy_length {buf bs : List Byte} {offset : ℕ} (hfits : offset + bs.length ≤ buf.length) :
    (memcpy buf offset bs).length = buf.length := by
  simp only [memcpy,List.length_append,List.length_take,List.length_drop]
  omega

theorem take_memcpy (buf bs : List Byte) {offset : ℕ} (hle : offset ≤ buf.length) :
    (memcpy buf offset bs).take (offset + bs.length) = buf.take offset ++ bs := by
  have hlen : (buf.take offset).length = offset := by
    rw [List.length_take]
    omega
  rw [memcpy,← List.append_assoc]
  apply List.take_left'
  rw [List.length_append,hlen]

variable {W : Type} [DecidableEq W]

/-- Where a writer is: outside, waiting for `write_mutex`, or so far in `sr_write`. -/
inductive WritePos
  | idle
  | locking (m : Msg)
  | entered (m : Msg)
  | headed (m : Msg)
  | filled (m : Msg)
  | polling (m : Msg)

/-- Whether the writer holds `write_mutex`. -/
def WritePos.inside : WritePos → Bool
  | .idle => false
  | .locking _ => false
  | _ => true

structure WriteEnd (W : Type) where
  writer : W → WritePos
  writeMutex : Option W
  /-- `send_buf`. -/
  buf : List Byte
  /-- The lengths of the sends that are posted, and of those that have left unacknowledged. -/
  queue : List ℕ
  unacked : List ℕ
  /-- The completions in `send_cq`, and whether `send_cq` itself has failed. -/
  cq : List Bool
  cqDown : Bool
  /-- Whether the queue pair is in the error state. -/
  broken : Bool

def WriteEnd.set (v : WriteEnd W) (w : W) (q : WritePos) : WriteEnd W :=
  { v with writer := Function.update v.writer w q }

/-- Return from `sr_write` and give up the mutex. -/
def WriteEnd.leave (v : WriteEnd W) (w : W) : WriteEnd W :=
  { v.set w .idle with writeMutex := none }

/-- What a writer does next, and what comes from outside: the message, the bytes that the compiler
leaves in the padding, the answer of `ibv_post_send`. -/
inductive WriteInput
  | call (m : Msg)
  | lock
  | header (padding : List Byte)
  | payload
  | post (ok : Bool)
  | poll
  | pollError

/-- Where a message has a payload, `payload` points to at least `payload_len` bytes. -/
def Msg.Backed (m : Msg) : Prop := m.payload.size = 0 ∨ m.header.payloadLen.toNat ≤ m.payload.size

instance (m : Msg) : Decidable m.Backed := inferInstanceAs (Decidable (_ ∨ _))

def Msg.totalLen (m : Msg) : ℕ := sizeofMsgHeader + m.header.payloadLen.toNat

/-- The checks at the top of `sr_write`. -/
def Msg.Sendable (m : Msg) : Prop :=
  ¬(0 < m.header.payloadLen.toNat ∧ m.payload.size = 0) ∧ m.totalLen ≤ srMaxMsgSize ∧
    m.totalLen ≤ 2 ^ 32 - 1

instance (m : Msg) : Decidable m.Sendable := inferInstanceAs (Decidable (_ ∧ _))

/-- `sr_write` under `write_mutex`, one access of the connection after the other.  A completion
queue fails only together with the queue pair, and then for good. -/
def writeStep (e : ByteOrder) (v : WriteEnd W) (w : W) :
    WriteInput → Option (WriteEnd W × List (Visible W Msg Msg))
  | .call m =>
    match v.writer w with
    | .idle => if m.Backed then some (v.set w (.locking m),[.called w m]) else none
    | _ => none
  | .lock =>
    match v.writer w, v.writeMutex with
    | .locking m, none => some ({ v.set w (.entered m) with writeMutex := some w },[])
    | _, _ => none
  | .header padding =>
    match v.writer w with
    | .entered m =>
      if padding.length ≠ 4 then none
      else if m.Sendable then
        some ({ v.set w (.headed m) with
                buf := memcpy v.buf 0 ((headerToWire e m.header).store e padding) },[])
      else some (v.leave w,[.returned w m false])
    | _ => none
  | .payload =>
    match v.writer w with
    | .headed m =>
      let bytes := (m.payload.take m.header.payloadLen.toNat).toList
      some ({ v.set w (.filled m) with buf := memcpy v.buf sizeofMsgHeader bytes },[])
    | _ => none
  | .post ok =>
    match v.writer w with
    | .filled m =>
      if ok then some ({ v.set w (.polling m) with queue := v.queue ++ [m.totalLen] },[])
      else some (v.leave w,[.returned w m false])
    | _ => none
  | .poll =>
    match v.writer w, v.cq, v.cqDown with
    | .polling m, ok::rest, false => some ({ v.leave w with cq := rest },[.returned w m ok])
    | _, _, _ => none
  | .pollError =>
    match v.writer w, v.broken with
    | .polling m, true => some ({ v.leave w with cqDown := true },[.returned w m false])
    | _, _ => none

/-- Where the reader is in `sr_read` or `sr_read_for`; after a failure it never reads again. -/
inductive ReadPos
  | idle
  | ensuring
  | polling
  | got (byteLen : ℕ)
  | headed (header : MsgHeader)
  | copied (m : Msg)
  | failed

structure ReadEnd where
  reader : ReadPos
  /-- `recv_buf`. -/
  buf : List Byte
  /-- How many receives are posted; each is for the whole of `recv_buf`. -/
  wrs : ℕ
  /-- The completions in `recv_cq`: the byte count, or that the receive was flushed. -/
  cq : List (Option ℕ)
  /-- `recv_posted`. -/
  posted : Bool
  broken : Bool

inductive ReadInput
  | enter
  | ensure (ok : Bool)
  | poll
  | pollError
  | timeout
  | header
  | payload
  | repost (ok : Bool)

/-- `sr_read` and `sr_read_for`, one access of the connection after the other. -/
def readLinkStep (f : ByteOrder) (r : ReadEnd) :
    ReadInput → Option (ReadEnd × List (Visible W Msg Msg))
  | .enter =>
    match r.reader with
    | .idle => some ({ r with reader := .ensuring },[])
    | _ => none
  | .ensure ok =>
    match r.reader with
    | .ensuring =>
      if r.posted then some ({ r with reader := .polling },[])
      else if ok then some ({ r with reader := .polling, wrs := r.wrs + 1, posted := true },[])
      else some ({ r with reader := .failed },[])
    | _ => none
  | .poll =>
    match r.reader, r.cq with
    | .polling, some byteLen::rest =>
      some ({ r with reader := .got byteLen, cq := rest, posted := false },[])
    | .polling, none::rest => some ({ r with reader := .failed, cq := rest },[])
    | _, _ => none
  | .pollError =>
    match r.reader with
    | .polling => some ({ r with reader := .failed },[])
    | _ => none
  | .timeout =>
    match r.reader with
    | .polling => some ({ r with reader := .idle },[])
    | _ => none
  | .header =>
    match r.reader with
    | .got byteLen =>
      let header := headerFromWire f (.load f (r.buf.take sizeofMsgHeader))
      if byteLen < sizeofMsgHeader then some ({ r with reader := .failed },[])
      else if header.magic ≠ magicNumber ∨ header.version ≠ protocolVersion then
        some ({ r with reader := .failed },[])
      else if byteLen < sizeofMsgHeader + header.payloadLen.toNat then
        some ({ r with reader := .failed },[])
      else some ({ r with reader := .headed header },[])
    | _ => none
  | .payload =>
    match r.reader with
    | .headed header =>
      let bytes := (r.buf.drop sizeofMsgHeader).take header.payloadLen.toNat
      some ({ r with reader := .copied ⟨header,.ofList bytes⟩ },[])
    | _ => none
  | .repost ok =>
    match r.reader with
    | .copied m =>
      if ok then some ({ r with reader := .idle, wrs := r.wrs + 1, posted := true },[.read m])
      else some ({ r with reader := .failed },[])
    | _ => none

structure Link (W : Type) where
  send : WriteEnd W
  /-- Frames that have left the sender and not arrived. -/
  wire : List (List Byte)
  recv : ReadEnd

/-- What the queue pairs do: a send leaves, or is repeated, with what `send_buf` holds by then;
a frame arrives in `recv_buf` when a receive is posted; a queue pair that fails flushes its work. -/
inductive NetAction
  | transmit
  | resend
  | deliver
  | ack
  | breakSend
  | breakRecv
  | flushQueued
  | flushUnacked
  | flushRecv

omit [DecidableEq W] in
def netStep (s : Link W) : NetAction → Option (Link W)
  | .transmit =>
    match s.send.broken, s.send.queue with
    | false, len::rest =>
      some { s with send := { s.send with queue := rest, unacked := s.send.unacked ++ [len] }
                    wire := s.wire ++ [s.send.buf.take len] }
    | _, _ => none
  | .resend =>
    match s.send.broken, s.send.unacked, s.wire with
    | false, [len], [_] => some { s with wire := [s.send.buf.take len] }
    | _, _, _ => none
  | .deliver =>
    match s.recv.broken, s.wire, s.recv.wrs with
    | false, frame::rest, k + 1 =>
      if frame.length ≤ srMaxMsgSize then
        some { s with wire := rest
                      recv := { s.recv with buf := memcpy s.recv.buf 0 frame
                                            wrs := k
                                            cq := s.recv.cq ++ [some frame.length] } }
      else none
    | _, _, _ => none
  | .ack =>
    match s.send.broken, s.send.unacked with
    | false, _::rest =>
      if s.wire.length ≤ rest.length then
        some { s with send := { s.send with unacked := rest, cq := s.send.cq ++ [true] } }
      else none
    | _, _ => none
  | .breakSend => some { s with send := { s.send with broken := true } }
  | .breakRecv => some { s with recv := { s.recv with broken := true } }
  | .flushQueued =>
    match s.send.broken, s.send.queue with
    | true, _::rest => some { s with send := { s.send with queue := rest, cq := s.send.cq ++ [false] } }
    | _, _ => none
  | .flushUnacked =>
    match s.send.broken, s.send.unacked with
    | true, _::rest =>
      some { s with send := { s.send with unacked := rest, cq := s.send.cq ++ [false] } }
    | _, _ => none
  | .flushRecv =>
    match s.recv.broken, s.recv.wrs with
    | true, k + 1 => some { s with recv := { s.recv with wrs := k, cq := s.recv.cq ++ [none] } }
    | _, _ => none

inductive LinkAction (W : Type)
  | write (w : W) (x : WriteInput)
  | read (x : ReadInput)
  | net (a : NetAction)

def linkStep (e f : ByteOrder) (s : Link W) :
    LinkAction W → Option (Link W × List (Visible W Msg Msg))
  | .write w x => (writeStep e s.send w x).map fun r => ({ s with send := r.1 },r.2)
  | .read x => (readLinkStep f s.recv x).map fun r => ({ s with recv := r.1 },r.2)
  | .net a => (netStep s a).map fun t => (t,[])

/-- A connection that `build_conn_resources` has made: both buffers allocated, one receive
posted. -/
def Link.Built (s : Link W) : Prop :=
  s.send.buf.length = srMaxMsgSize ∧ s.recv.buf.length = srMaxMsgSize ∧
    s = { send := { writer := fun _ => .idle, writeMutex := none, buf := s.send.buf, queue := []
                    unacked := [], cq := [], cqDown := false, broken := false }
          wire := []
          recv := { reader := .idle, buf := s.recv.buf, wrs := 1, cq := [], posted := true
                    broken := false } }

/-- A machine whose byte order is `e` writes to one whose byte order is `f`. -/
def linkMachine (W : Type) [DecidableEq W] (e f : ByteOrder) :
    Machine (Link W) (LinkAction W) (Visible W Msg Msg) where
  init := Link.Built
  step := linkStep e f

def transfer (m : Msg) : Except Fault Msg := srWrite m >>= receive

/-- The bytes that `sr_write` makes of a message, with some padding. -/
def IsFrame (e : ByteOrder) (m : Msg) (frame : List Byte) : Prop :=
  m.Backed ∧ ∃ padding, padding.length = 4 ∧ srWriteFrame e padding m = .ok frame

variable {e f : ByteOrder} {m : Msg} {frame : List Byte}

theorem Msg.Sendable.writes (hm : m.Sendable) (padding : List Byte) :
    srWriteFrame e padding m = .ok ((headerToWire e m.header).store e padding ++
      (m.payload.take m.header.payloadLen.toNat).toList) := by
  obtain ⟨hpayload,hsmall,hword⟩ := hm
  unfold Msg.totalLen at hsmall hword
  simp only [srWriteFrame,if_neg hpayload]
  rw [if_neg (not_lt.mpr hsmall),if_neg (not_lt.mpr hword)]

theorem IsFrame.exists_frame (hf : IsFrame e m frame) : ∃ padding n, padding.length = 4 ∧
    srWrite m = .ok n ∧ frame = n.frame padding ∧ n.header = m.header ∧
    n.payload.size = m.header.payloadLen.toNat ∧ m.totalLen ≤ srMaxMsgSize := by
  obtain ⟨hbacked,padding,hpad,hwrite⟩ := hf
  rw [srWriteFrame_eq] at hwrite
  cases hn : srWrite m with
  | error fault =>
    rw [hn] at hwrite
    cases hwrite
  | ok n =>
    rw [hn] at hwrite
    refine ⟨padding,n,hpad,rfl,(Except.ok.inj hwrite).symm,?_⟩
    unfold srWrite at hn
    split_ifs at hn with hmissing hlarge
    obtain rfl := Except.ok.inj hn
    refine ⟨rfl,?_,not_lt.mp hlarge⟩
    rcases hbacked with hnone | hle
    · rw [Bytes.take_size]
      omega
    · exact Nat.min_eq_left hle

theorem IsFrame.length_eq (hf : IsFrame e m frame) : frame.length = m.totalLen := by
  obtain ⟨padding,m',hpad,-,rfl,-,hsize,-⟩ := hf.exists_frame
  rw [Msg.frame_length hpad,hsize,Msg.totalLen]

theorem IsFrame.small (hf : IsFrame e m frame) : m.totalLen ≤ srMaxMsgSize := by
  obtain ⟨-,-,-,-,-,-,-,hsmall⟩ := hf.exists_frame
  exact hsmall

theorem IsFrame.accepted (hf : IsFrame e m frame) : ∃ m', srWrite m = .ok m' := by
  obtain ⟨-,m',-,hwrite,-⟩ := hf.exists_frame
  exact ⟨m',hwrite⟩

theorem IsFrame.read (hf : IsFrame e m frame) {buf : List Byte}
    (hbuf : buf.take frame.length = frame) : srReadFrame f frame.length buf = transfer m := by
  obtain ⟨padding,m',hpad,hwrite,rfl,hheader,hsize,-⟩ := hf.exists_frame
  rw [← List.take_append_drop (m'.frame padding).length buf,hbuf,
    srReadFrame_eq hpad (by rw [hsize,hheader]),transfer,hwrite]
  rfl

/-- What the buffer holds at the position of a writer, and the status of its call. -/
inductive Tells (e : ByteOrder) (buf : List Byte) : WritePos → Status Msg → Prop
  | idle : Tells e buf .idle .idle
  | locking (m : Msg) : m.Backed → Tells e buf (.locking m) (.calling m)
  | entered (m : Msg) : m.Backed → Tells e buf (.entered m) (.calling m)
  | headed (m : Msg) (padding : List Byte) : m.Backed → m.Sendable → padding.length = 4 →
      buf.take sizeofMsgHeader = (headerToWire e m.header).store e padding →
      Tells e buf (.headed m) (.calling m)
  | filled (m : Msg) (frame : List Byte) : IsFrame e m frame → buf.take frame.length = frame →
      Tells e buf (.filled m) (.calling m)
  | polling (m : Msg) (frame : List Byte) (q : Status Msg) : IsFrame e m frame →
      buf.take frame.length = frame → q = .calling m ∨ q = .posted m → Tells e buf (.polling m) q

theorem Tells.outside {buf buf' : List Byte} {q : WritePos} {st : Status Msg}
    (h : Tells e buf q st) (hq : q.inside = false) : Tells e buf' q st := by
  cases h with
  | idle => exact .idle
  | locking m hm => exact .locking m hm
  | entered m hm => exact .entered m hm
  | headed | filled | polling => cases hq

/-- The send that is under way: its request is in the send queue, its frame has left, it is
acknowledged, or it is flushed; with the completion queue down anything may be left over. -/
inductive Outstanding (v : WriteEnd W) (t : State W Msg) : Prop
  | down : v.cqDown = true → v.broken = true → Outstanding v t
  | none : v.queue = [] → v.unacked = [] → v.cq = [] → (∀ w m, v.writer w ≠ .polling m) →
      Outstanding v t
  | queued (w : W) (m : Msg) : v.writer w = .polling m → t.status w = .calling m →
      v.queue = [m.totalLen] → v.unacked = [] → v.cq = [] → Outstanding v t
  | unacked (w : W) (m : Msg) : v.writer w = .polling m → t.status w = .posted m →
      v.queue = [] → v.unacked = [m.totalLen] → v.cq = [] → t.posted.getLast? = some (w,m) →
      Outstanding v t
  | acked (w : W) (m : Msg) : v.writer w = .polling m → t.status w = .posted m →
      v.queue = [] → v.unacked = [] → v.cq = [true] → t.arrived = t.posted.length →
      Outstanding v t
  | flushed (w : W) (m : Msg) : v.writer w = .polling m → v.queue = [] → v.unacked = [] →
      v.cq = [false] → Outstanding v t

structure WriteEnd.Tracks (e : ByteOrder) (v : WriteEnd W) (t : State W Msg) : Prop where
  size : v.buf.length = srMaxMsgSize
  mutex : ∀ w, (v.writer w).inside = true ↔ v.writeMutex = some w
  writer : ∀ w, Tells e v.buf (v.writer w) (t.status w)
  sends : Outstanding v t

/-- What is on the wire is what was posted last, as long as it has not arrived. -/
inductive InTransit (e : ByteOrder) (v : WriteEnd W) (wire : List (List Byte)) (t : State W Msg) :
    Prop
  | none : wire = [] → t.arrived = t.posted.length → InTransit e v wire t
  | one (w : W) (m : Msg) (frame : List Byte) (before : List (W × Msg)) : wire = [frame] →
      t.posted = before ++ [(w,m)] → t.arrived = before.length → IsFrame e m frame →
      (v.broken = false → v.unacked ≠ []) → InTransit e v wire t

/-- A message has arrived that is still to be taken out, and the buffer begins with its frame. -/
def Landed (e : ByteOrder) (buf : List Byte) (t : State W Msg) (byteLen : ℕ) : Prop :=
  t.arrived = t.taken + 1 ∧ ∃ w m frame, t.posted[t.taken]? = some (w,m) ∧ IsFrame e m frame ∧
    frame.length = byteLen ∧ buf.take frame.length = frame

/-- Before the reader has seen a completion. -/
def ReadPos.waiting : ReadPos → Bool
  | .idle => true
  | .ensuring => true
  | .polling => true
  | _ => false

inductive Receives (e f : ByteOrder) (r : ReadEnd) (t : State W Msg) : Prop
  | waiting : r.reader.waiting = true → r.posted = true → r.wrs = 1 → r.cq = [] →
      t.arrived = t.taken → Receives e f r t
  | landed (byteLen : ℕ) : r.reader.waiting = true → r.posted = true → r.wrs = 0 →
      r.cq = [some byteLen] → Landed e r.buf t byteLen → Receives e f r t
  | flushed : r.reader.waiting = true → r.posted = true → r.wrs = 0 → r.cq = [none] →
      Receives e f r t
  | got (byteLen : ℕ) : r.reader = .got byteLen → r.posted = false → r.wrs = 0 → r.cq = [] →
      Landed e r.buf t byteLen → Receives e f r t
  | headed (header : MsgHeader) (byteLen : ℕ) : r.reader = .headed header → r.posted = false →
      r.wrs = 0 → r.cq = [] → Landed e r.buf t byteLen →
      srReadFrame f byteLen r.buf =
        .ok ⟨header,.ofList ((r.buf.drop sizeofMsgHeader).take header.payloadLen.toNat)⟩ →
      Receives e f r t
  | copied (w : W) (m n : Msg) : r.reader = .copied n → r.posted = false → r.wrs = 0 →
      r.cq = [] → t.arrived = t.taken + 1 → t.posted[t.taken]? = some (w,m) →
      transfer m = .ok n → Receives e f r t
  | failed : r.reader = .failed → r.wrs + r.cq.length ≤ 1 → (r.wrs = 1 → t.arrived = t.taken) →
      Receives e f r t

/-- How a link stands for a mailbox. -/
structure Link.Tracks (e f : ByteOrder) (s : Link W) (t : State W Msg) : Prop where
  send : s.send.Tracks e t
  transit : InTransit e s.send s.wire t
  size : s.recv.buf.length = srMaxMsgSize
  recv : Receives e f s.recv t

variable {v v' : WriteEnd W} {t t' : State W Msg} {w : W} {q : WritePos} {wire : List (List Byte)}
  {s s' : Link W} {ev : List (Visible W Msg Msg)}

omit [DecidableEq W] in
theorem WriteEnd.Tracks.alone (hv : v.Tracks e t) (hw : (v.writer w).inside = true) {u : W}
    (hu : (v.writer u).inside = true) : u = w :=
  Option.some.inj (((hv.mutex u).mp hu).symm.trans ((hv.mutex w).mp hw))

/-- What a step of writer `w` does to the mutex. -/
inductive Passes (v v' : WriteEnd W) (w : W) (q : WritePos) : Prop
  | keep : v'.writeMutex = v.writeMutex → q.inside = (v.writer w).inside → Passes v v' w q
  | enter : v.writeMutex = none → v'.writeMutex = some w → q.inside = true → Passes v v' w q
  | leave : (v.writer w).inside = true → v'.writeMutex = none → q.inside = false → Passes v v' w q

theorem WriteEnd.Tracks.change (hv : v.Tracks e t) (hwriter : v'.writer = Function.update v.writer w q)
    (hpass : Passes v v' w q) (hbuf : v'.buf = v.buf ∨ (v.writer w).inside = true)
    (hsize : v'.buf.length = srMaxMsgSize) (hothers : ∀ u, u ≠ w → t'.status u = t.status u)
    (htells : Tells e v'.buf q (t'.status w)) (hsends : Outstanding v' t') : v'.Tracks e t' := by
  refine ⟨hsize,fun u => ?_,fun u => ?_,hsends⟩
  · have hold := hv.mutex u
    by_cases hu : u = w
    · subst hu
      rw [hwriter,Function.update_self]
      cases hpass with
      | keep hmutex hq => rw [hq,hmutex,hold]
      | enter _ hmutex hq => simp [hq,hmutex]
      | leave _ hmutex hq => simp [hq,hmutex]
    · rw [hwriter,Function.update_of_ne hu]
      cases hpass with
      | keep hmutex _ => rw [hmutex,hold]
      | enter hfree hmutex _ =>
        rw [hold,hfree,hmutex]
        simpa using Ne.symm hu
      | leave hin hmutex _ =>
        rw [hold,(hv.mutex w).mp hin,hmutex]
        simpa using Ne.symm hu
  · by_cases hu : u = w
    · subst hu
      rwa [hwriter,Function.update_self]
    · rw [hwriter,Function.update_of_ne hu,hothers u hu]
      rcases hbuf with hbuf | hin
      · rw [hbuf]
        exact hv.writer u
      · exact (hv.writer u).outside (by
          cases hinside : (v.writer u).inside with
          | false => rfl
          | true => exact absurd (hv.alone hin hinside) hu)

omit [DecidableEq W] in
theorem WriteEnd.Tracks.settled (hv : v.Tracks e t) (hin : (v.writer w).inside = true)
    (hw : ∀ m, v.writer w ≠ .polling m) : (v.cqDown = true ∧ v.broken = true) ∨
      (v.queue = [] ∧ v.unacked = [] ∧ v.cq = [] ∧ ∀ u m, v.writer u ≠ .polling m) := by
  have hno : ∀ {u m}, v.writer u = .polling m → False := by
    intro u m hu
    obtain rfl := hv.alone hin (show (v.writer u).inside = true by rw [hu]; rfl)
    exact hw m hu
  cases hv.sends with
  | down hdown hbroken => exact .inl ⟨hdown,hbroken⟩
  | none hqueue hunacked hcq hall => exact .inr ⟨hqueue,hunacked,hcq,hall⟩
  | queued _ _ hu => exact (hno hu).elim
  | unacked _ _ hu => exact (hno hu).elim
  | acked _ _ hu => exact (hno hu).elim
  | flushed _ _ hu => exact (hno hu).elim

theorem Outstanding.keep (h : Outstanding v t) (hwriter : v'.writer = Function.update v.writer w q)
    (hqueue : v'.queue = v.queue) (hunacked : v'.unacked = v.unacked) (hcq : v'.cq = v.cq)
    (hdown : v'.cqDown = v.cqDown) (hbroken : v'.broken = v.broken)
    (hold : ∀ m, v.writer w ≠ .polling m) (hnew : ∀ m, q ≠ .polling m)
    (hothers : ∀ u, u ≠ w → t'.status u = t.status u) (hposted : t'.posted = t.posted)
    (harrived : t'.arrived = t.arrived) : Outstanding v' t' := by
  have hstill : ∀ {u m}, v.writer u = .polling m →
      v'.writer u = .polling m ∧ t'.status u = t.status u := by
    intro u m hu
    have hne : u ≠ w := by
      rintro rfl
      exact hold m hu
    exact ⟨by rw [hwriter,Function.update_of_ne hne,hu],hothers u hne⟩
  cases h with
  | down hd hb => exact .down (hdown.trans hd) (hbroken.trans hb)
  | none hq hu hc hall =>
    refine .none (hqueue.trans hq) (hunacked.trans hu) (hcq.trans hc) fun u m => ?_
    by_cases hne : u = w
    · subst hne
      rw [hwriter,Function.update_self]
      exact hnew m
    · rw [hwriter,Function.update_of_ne hne]
      exact hall u m
  | queued u m hu hst hq hn hc =>
    exact .queued u m (hstill hu).1 ((hstill hu).2.trans hst) (hqueue.trans hq)
      (hunacked.trans hn) (hcq.trans hc)
  | unacked u m hu hst hq hn hc hlast =>
    exact .unacked u m (hstill hu).1 ((hstill hu).2.trans hst) (hqueue.trans hq)
      (hunacked.trans hn) (hcq.trans hc) (by rwa [hposted])
  | acked u m hu hst hq hn hc hall =>
    exact .acked u m (hstill hu).1 ((hstill hu).2.trans hst) (hqueue.trans hq)
      (hunacked.trans hn) (hcq.trans hc) (by rwa [hposted,harrived])
  | flushed u m hu hq hn hc =>
    exact .flushed u m (hstill hu).1 (hqueue.trans hq) (hunacked.trans hn) (hcq.trans hc)

abbrev LinkMove : State W Msg → List (Visible W Msg Msg) → State W Msg → Prop :=
  Move (fun m => ∃ n, srWrite m = .ok n) fun m => (transfer m).toOption

/-- What a step of writer `w` leaves alone: everything but the status of its call. -/
structure Calls (t t' : State W Msg) (w : W) : Prop where
  posted : t'.posted = t.posted
  arrived : t'.arrived = t.arrived
  taken : t'.taken = t.taken
  others : ∀ u, u ≠ w → t'.status u = t.status u

theorem calls_setStatus (t : State W Msg) (w : W) (st : Status Msg) :
    Calls t (t.setStatus w st) w :=
  ⟨rfl,rfl,rfl,fun u hu => by simp [State.setStatus,hu]⟩

omit [DecidableEq W] in
theorem calls_refl (t : State W Msg) (w : W) : Calls t t w := ⟨rfl,rfl,rfl,fun _ _ => rfl⟩

theorem WriteEnd.Tracks.leave (hv : v.Tracks e t) (hin : (v.writer w).inside = true)
    (hpoll : ∀ m, v.writer w ≠ .polling m) (hst : t.status w = .calling m) :
    ∃ t', Moves LinkMove t [.returned w m false] t' ∧ (v.leave w).Tracks e t' ∧ Calls t t' w := by
  refine ⟨t.setStatus w .idle,.single (.fail w m (.inl hst)),?_,calls_setStatus t w .idle⟩
  have hcalls := calls_setStatus t w .idle
  refine hv.change rfl (.leave hin rfl rfl) (.inl rfl) hv.size hcalls.others ?_ ?_
  · simpa [State.setStatus] using Tells.idle
  · exact hv.sends.keep rfl rfl rfl rfl rfl rfl hpoll (by simp) hcalls.others rfl rfl

theorem WriteEnd.Tracks.leave_polling (hv : v.Tracks e t) (hw : v.writer w = .polling m)
    (hqueue : v'.queue = [] ∧ v'.unacked = [] ∧ v'.cq = [] ∨ v'.cqDown = true ∧ v'.broken = true)
    (hleft : v'.writer = (v.leave w).writer ∧ v'.writeMutex = none ∧ v'.buf = v.buf) :
    v'.Tracks e (t.setStatus w .idle) := by
  have hin : (v.writer w).inside = true := by rw [hw]; rfl
  refine hv.change hleft.1 (.leave hin hleft.2.1 rfl) (.inl hleft.2.2) (hleft.2.2 ▸ hv.size)
    (calls_setStatus t w .idle).others (by simpa [State.setStatus] using Tells.idle) ?_
  rcases hqueue with ⟨hqueue,hunacked,hcq⟩ | ⟨hdown,hbroken⟩
  · refine .none hqueue hunacked hcq fun u n hu => ?_
    rw [hleft.1] at hu
    by_cases hne : u = w
    · subst hne
      simp [WriteEnd.leave,WriteEnd.set] at hu
    · simp only [WriteEnd.leave,WriteEnd.set,Function.update_of_ne hne] at hu
      exact hne (hv.alone hin (by rw [hu]; rfl))
  · exact .down hdown hbroken

theorem call_tracks (hv : v.Tracks e t)
    (hs : writeStep e v w (.call m) = some (v',ev)) :
    ∃ t', Moves LinkMove t ev t' ∧ v'.Tracks e t' ∧ Calls t t' w := by
  have htells := hv.writer w
  generalize hst : t.status w = st at htells
  simp only [writeStep] at hs
  split at hs
  · rename_i hw
    split_ifs at hs with hbacked
    obtain ⟨rfl,rfl⟩ := Prod.mk.inj (Option.some.inj hs)
    have hcalls := calls_setStatus t w (.calling m)
    rw [hw] at htells
    cases htells
    refine ⟨_,.single (.call w m hst),?_,hcalls⟩
    refine hv.change rfl (.keep rfl (by rw [hw]; rfl)) (.inl rfl) hv.size hcalls.others ?_ ?_
    · simpa [State.setStatus] using Tells.locking m hbacked
    · exact hv.sends.keep rfl rfl rfl rfl rfl rfl (by simp [hw]) (by simp) hcalls.others rfl rfl
  · cases hs

theorem lock_tracks (hv : v.Tracks e t)
    (hs : writeStep e v w .lock = some (v',ev)) :
    ∃ t', Moves LinkMove t ev t' ∧ v'.Tracks e t' ∧ Calls t t' w := by
  have htells := hv.writer w
  generalize hst : t.status w = st at htells
  simp only [writeStep] at hs
  split at hs
  · rename_i m hw hmutex
    obtain ⟨rfl,rfl⟩ := Prod.mk.inj (Option.some.inj hs)
    have hcalls := calls_refl t w
    rw [hw] at htells
    cases htells with
    | locking _ hbacked =>
      refine ⟨t,.refl,?_,hcalls⟩
      refine hv.change rfl (.enter hmutex rfl rfl) (.inl rfl) hv.size hcalls.others ?_ ?_
      · rw [hst]
        exact .entered m hbacked
      · exact hv.sends.keep rfl rfl rfl rfl rfl rfl (by simp [hw]) (by simp) hcalls.others rfl rfl
  · cases hs

theorem header_tracks {padding : List Byte} (hv : v.Tracks e t)
    (hs : writeStep e v w (.header padding) = some (v',ev)) :
    ∃ t', Moves LinkMove t ev t' ∧ v'.Tracks e t' ∧ Calls t t' w := by
  have htells := hv.writer w
  generalize hst : t.status w = st at htells
  simp only [writeStep] at hs
  split at hs
  · rename_i m hw
    have hin : (v.writer w).inside = true := by rw [hw]; rfl
    rw [hw] at htells
    cases htells with
    | entered _ hbacked =>
      split_ifs at hs with hpad hsend
      · obtain ⟨rfl,rfl⟩ := Prod.mk.inj (Option.some.inj hs)
        rw [not_not] at hpad
        have hlen : ((headerToWire e m.header).store e padding).length = sizeofMsgHeader :=
          MsgHeader.store_length hpad
        have hroom : sizeofMsgHeader ≤ srMaxMsgSize := by decide
        have hcalls := calls_refl t w
        refine ⟨t,.refl,?_,hcalls⟩
        refine hv.change rfl (.keep rfl (by rw [hw]; rfl)) (.inr hin) ?_ hcalls.others ?_ ?_
        · exact (memcpy_length (by rw [hlen,hv.size]; simpa using hroom)).trans hv.size
        · rw [hst]
          refine .headed m padding hbacked hsend hpad ?_
          have htake := take_memcpy v.buf ((headerToWire e m.header).store e padding)
            (Nat.zero_le _)
          rw [hlen] at htake
          simpa using htake
        · exact hv.sends.keep rfl rfl rfl rfl rfl rfl (by simp [hw]) (by simp) hcalls.others rfl rfl
      · obtain ⟨rfl,rfl⟩ := Prod.mk.inj (Option.some.inj hs)
        exact hv.leave hin (by simp [hw]) hst
  · cases hs

theorem payload_tracks (hv : v.Tracks e t)
    (hs : writeStep e v w .payload = some (v',ev)) :
    ∃ t', Moves LinkMove t ev t' ∧ v'.Tracks e t' ∧ Calls t t' w := by
  have htells := hv.writer w
  generalize hst : t.status w = st at htells
  simp only [writeStep] at hs
  split at hs
  · rename_i m hw
    have hin : (v.writer w).inside = true := by rw [hw]; rfl
    obtain ⟨rfl,rfl⟩ := Prod.mk.inj (Option.some.inj hs)
    rw [hw] at htells
    cases htells with
    | headed _ padding hbacked hsend hpad htake =>
      have hframe : IsFrame e m _ := ⟨hbacked,padding,hpad,hsend.writes padding⟩
      have hlen := hframe.length_eq
      have hheader : ((headerToWire e m.header).store e padding).length = sizeofMsgHeader :=
        MsgHeader.store_length hpad
      rw [List.length_append,hheader] at hlen
      have hsmall := hframe.small
      have hcalls := calls_refl t w
      refine ⟨t,.refl,?_,hcalls⟩
      refine hv.change rfl (.keep rfl (by rw [hw]; rfl)) (.inr hin) ?_ hcalls.others ?_ ?_
      · exact (memcpy_length (by rw [hv.size]; omega)).trans hv.size
      · rw [hst]
        refine .filled m _ hframe ?_
        rw [List.length_append,hheader,take_memcpy _ _ (by rw [hv.size]; omega),htake]
      · exact hv.sends.keep rfl rfl rfl rfl rfl rfl (by simp [hw]) (by simp) hcalls.others rfl rfl
  · cases hs

theorem post_tracks {ok : Bool} (hv : v.Tracks e t)
    (hs : writeStep e v w (.post ok) = some (v',ev)) :
    ∃ t', Moves LinkMove t ev t' ∧ v'.Tracks e t' ∧ Calls t t' w := by
  have htells := hv.writer w
  generalize hst : t.status w = st at htells
  simp only [writeStep] at hs
  split at hs
  · rename_i m hw
    have hin : (v.writer w).inside = true := by rw [hw]; rfl
    rw [hw] at htells
    cases htells with
    | filled _ frame hframe htake =>
      split_ifs at hs
      · obtain ⟨rfl,rfl⟩ := Prod.mk.inj (Option.some.inj hs)
        have hcalls := calls_refl t w
        refine ⟨t,.refl,?_,hcalls⟩
        refine hv.change rfl (.keep rfl (by rw [hw]; rfl)) (.inr hin) hv.size hcalls.others ?_ ?_
        · rw [hst]
          exact .polling m frame _ hframe htake (.inl rfl)
        · rcases hv.settled hin (by simp [hw]) with ⟨hdown,hbroken⟩ | ⟨hqueue,hunacked,hcq,-⟩
          · exact .down hdown hbroken
          · exact .queued w m (by simp [WriteEnd.set]) hst (by simp [hqueue])
              hunacked hcq
      · obtain ⟨rfl,rfl⟩ := Prod.mk.inj (Option.some.inj hs)
        exact hv.leave hin (by simp [hw]) hst
  · cases hs

theorem poll_tracks (hv : v.Tracks e t)
    (hs : writeStep e v w .poll = some (v',ev)) :
    ∃ t', Moves LinkMove t ev t' ∧ v'.Tracks e t' ∧ Calls t t' w := by
  have htells := hv.writer w
  generalize hst : t.status w = st at htells
  simp only [writeStep] at hs
  split at hs
  · rename_i m ok rest hw hcq hdown
    have hin : (v.writer w).inside = true := by rw [hw]; rfl
    obtain ⟨rfl,rfl⟩ := Prod.mk.inj (Option.some.inj hs)
    have halone : ∀ {u n}, v.writer u = .polling n → u = w ∧ n = m := by
      intro u n hu
      obtain rfl := hv.alone hin (by rw [hu]; rfl)
      rw [hw] at hu
      exact ⟨rfl,(WritePos.polling.inj hu).symm⟩
    have hcalls := calls_setStatus t w .idle
    cases hv.sends with
    | down hd _ => simp [hdown] at hd
    | none _ _ hc _ => simp [hcq] at hc
    | queued _ _ _ _ _ _ hc => simp [hcq] at hc
    | unacked _ _ _ _ _ _ hc _ => simp [hcq] at hc
    | acked u n hu hposted hq hn hc hall =>
      obtain ⟨rfl,rfl⟩ := halone hu
      obtain ⟨rfl,rfl⟩ := List.cons.inj (hcq.symm.trans hc)
      exact ⟨_,.single (.succeed u n hposted hall),
        hv.leave_polling hw (.inl ⟨hq,hn,rfl⟩) ⟨rfl,rfl,rfl⟩,hcalls⟩
    | flushed u n hu hq hn hc =>
      obtain ⟨rfl,rfl⟩ := halone hu
      obtain ⟨rfl,rfl⟩ := List.cons.inj (hcq.symm.trans hc)
      rw [hw] at htells
      cases htells with
      | polling _ _ _ _ _ hcalled =>
        exact ⟨_,.single (.fail u n (by rwa [hst])),
          hv.leave_polling hw (.inl ⟨hq,hn,rfl⟩) ⟨rfl,rfl,rfl⟩,hcalls⟩
  · cases hs

theorem pollError_tracks (hv : v.Tracks e t)
    (hs : writeStep e v w .pollError = some (v',ev)) :
    ∃ t', Moves LinkMove t ev t' ∧ v'.Tracks e t' ∧ Calls t t' w := by
  have htells := hv.writer w
  generalize hst : t.status w = st at htells
  simp only [writeStep] at hs
  split at hs
  · rename_i m hw hbroken
    obtain ⟨rfl,rfl⟩ := Prod.mk.inj (Option.some.inj hs)
    rw [hw] at htells
    cases htells with
    | polling _ _ _ _ _ hcalled =>
      exact ⟨_,.single (.fail w m (by rwa [hst])),
        hv.leave_polling hw (.inr ⟨rfl,hbroken⟩) ⟨rfl,rfl,rfl⟩,calls_setStatus t w .idle⟩
  · cases hs

theorem writeStep_tracks {x : WriteInput} (hv : v.Tracks e t)
    (hs : writeStep e v w x = some (v',ev)) :
    ∃ t', Moves LinkMove t ev t' ∧ v'.Tracks e t' ∧ Calls t t' w := by
  cases x with
  | call m => exact call_tracks hv hs
  | lock => exact lock_tracks hv hs
  | header padding => exact header_tracks hv hs
  | payload => exact payload_tracks hv hs
  | post ok => exact post_tracks hv hs
  | poll => exact poll_tracks hv hs
  | pollError => exact pollError_tracks hv hs

theorem writeStep_keeps {x : WriteInput} (hs : writeStep e v w x = some (v',ev)) :
    v'.unacked = v.unacked ∧ v'.broken = v.broken := by
  cases x <;> simp only [writeStep] at hs <;> split at hs
  all_goals try split_ifs at hs
  all_goals first
    | (obtain ⟨rfl,-⟩ := Prod.mk.inj (Option.some.inj hs); exact ⟨rfl,rfl⟩)
    | cases hs

variable {r r' : ReadEnd}

omit [DecidableEq W] in
theorem Receives.wait {q : ReadPos} (h : Receives e f r t) (hold : r.reader.waiting = true)
    (hnew : q.waiting = true) : Receives e f { r with reader := q } t := by
  cases h with
  | waiting _ hposted hwrs hcq harrived => exact .waiting hnew hposted hwrs hcq harrived
  | landed byteLen _ hposted hwrs hcq hlanded => exact .landed byteLen hnew hposted hwrs hcq hlanded
  | flushed _ hposted hwrs hcq => exact .flushed hnew hposted hwrs hcq
  | got _ hq | headed _ _ hq | copied _ _ _ hq | failed hq =>
    rw [hq] at hold
    cases hold

omit [DecidableEq W] in
theorem Receives.fail (h : Receives e f r t) (hq : r'.reader = .failed) (hwrs : r'.wrs = r.wrs)
    (hcq : r'.cq.length ≤ r.cq.length) : Receives e f r' t := by
  refine .failed hq ?_ ?_
  · cases h with
    | waiting _ _ hw hc | landed _ _ _ hw hc | flushed _ _ hw hc | got _ _ _ hw hc
    | headed _ _ _ _ hw hc | copied _ _ _ _ _ hw hc =>
      simp only [hc,List.length_nil,List.length_singleton] at hcq
      omega
    | failed _ hle => omega
  · intro hone
    rw [hwrs] at hone
    cases h with
    | waiting _ _ _ _ ha => exact ha
    | failed _ _ ha => exact ha hone
    | landed _ _ _ hw | flushed _ _ hw | got _ _ _ hw | headed _ _ _ _ hw | copied _ _ _ _ _ hw =>
      omega

omit [DecidableEq W] in
theorem Receives.posted_eq (h : Receives e f r t) (hold : r.reader.waiting = true) :
    r.posted = true := by
  cases h with
  | waiting _ hposted | landed _ _ hposted | flushed _ hposted => exact hposted
  | got _ hq | headed _ _ hq | copied _ _ _ hq | failed hq =>
    rw [hq] at hold
    cases hold

/-- What a step of the reader leaves alone: everything but how much is taken out. -/
structure Takes (t t' : State W Msg) : Prop where
  status : t'.status = t.status
  posted : t'.posted = t.posted
  arrived : t'.arrived = t.arrived

theorem Receives.quiet (hr : Receives e f r' t) (hbuf : r'.buf = r.buf) :
    ∃ t', Moves LinkMove t [] t' ∧ Receives e f r' t' ∧ r'.buf = r.buf ∧ Takes t t' :=
  ⟨t,.refl,hr,hbuf,⟨rfl,rfl,rfl⟩⟩

theorem enter_tracks (hr : Receives e f r t)
    (hs : readLinkStep f r .enter = some (r',ev)) :
    ∃ t', Moves LinkMove t ev t' ∧ Receives e f r' t' ∧ r'.buf = r.buf ∧ Takes t t' := by
  simp only [readLinkStep] at hs
  split at hs
  · rename_i hq
    obtain ⟨rfl,rfl⟩ := Prod.mk.inj (Option.some.inj hs)
    exact Receives.quiet (hr.wait (by rw [hq]; rfl) rfl) rfl
  · cases hs

theorem ensure_tracks {ok : Bool} (hr : Receives e f r t)
    (hs : readLinkStep f r (.ensure ok) = some (r',ev)) :
    ∃ t', Moves LinkMove t ev t' ∧ Receives e f r' t' ∧ r'.buf = r.buf ∧ Takes t t' := by
  simp only [readLinkStep] at hs
  split at hs
  · rename_i hq
    have hwaiting : r.reader.waiting = true := by rw [hq]; rfl
    rw [if_pos (hr.posted_eq hwaiting)] at hs
    obtain ⟨rfl,rfl⟩ := Prod.mk.inj (Option.some.inj hs)
    exact Receives.quiet (hr.wait hwaiting rfl) rfl
  · cases hs

theorem recvPoll_tracks (hr : Receives e f r t)
    (hs : readLinkStep f r .poll = some (r',ev)) :
    ∃ t', Moves LinkMove t ev t' ∧ Receives e f r' t' ∧ r'.buf = r.buf ∧ Takes t t' := by
  simp only [readLinkStep] at hs
  split at hs
  · rename_i byteLen rest hq hcq
    obtain ⟨rfl,rfl⟩ := Prod.mk.inj (Option.some.inj hs)
    cases hr with
    | landed _ _ _ hwrs hc hlanded =>
      obtain ⟨hlen,rfl⟩ := List.cons.inj (hcq.symm.trans hc)
      obtain rfl := Option.some.inj hlen
      exact Receives.quiet (.got byteLen rfl rfl hwrs rfl hlanded) rfl
    | waiting | flushed | got | headed | copied | failed => simp_all
  · obtain ⟨rfl,rfl⟩ := Prod.mk.inj (Option.some.inj hs)
    exact Receives.quiet (hr.fail rfl rfl (by simp [*])) rfl
  · cases hs

theorem recvError_tracks (hr : Receives e f r t)
    (hs : readLinkStep f r .pollError = some (r',ev)) :
    ∃ t', Moves LinkMove t ev t' ∧ Receives e f r' t' ∧ r'.buf = r.buf ∧ Takes t t' := by
  simp only [readLinkStep] at hs
  split at hs
  · obtain ⟨rfl,rfl⟩ := Prod.mk.inj (Option.some.inj hs)
    exact Receives.quiet (hr.fail rfl rfl le_rfl) rfl
  · cases hs

theorem timeout_tracks (hr : Receives e f r t)
    (hs : readLinkStep f r .timeout = some (r',ev)) :
    ∃ t', Moves LinkMove t ev t' ∧ Receives e f r' t' ∧ r'.buf = r.buf ∧ Takes t t' := by
  simp only [readLinkStep] at hs
  split at hs
  · rename_i hq
    obtain ⟨rfl,rfl⟩ := Prod.mk.inj (Option.some.inj hs)
    exact Receives.quiet (hr.wait (by rw [hq]; rfl) rfl) rfl
  · cases hs

theorem recvHeader_tracks (hr : Receives e f r t)
    (hs : readLinkStep f r .header = some (r',ev)) :
    ∃ t', Moves LinkMove t ev t' ∧ Receives e f r' t' ∧ r'.buf = r.buf ∧ Takes t t' := by
  simp only [readLinkStep] at hs
  split at hs
  · rename_i byteLen hq
    split_ifs at hs with hsmall hheader htrunc
    -- the three checks that fail
    iterate 3
      · obtain ⟨rfl,rfl⟩ := Prod.mk.inj (Option.some.inj hs)
        exact Receives.quiet (hr.fail rfl rfl le_rfl) rfl
    obtain ⟨rfl,rfl⟩ := Prod.mk.inj (Option.some.inj hs)
    cases hr with
    | got len hgot hposted hwrs hcq hlanded =>
      obtain rfl := ReadPos.got.inj (hq.symm.trans hgot)
      refine Receives.quiet (.headed _ byteLen rfl hposted hwrs hcq hlanded ?_) rfl
      simp only [srReadFrame]
      rw [if_neg hsmall,if_neg hheader,if_neg htrunc]
    | waiting hw | landed _ hw | flushed hw =>
      rw [hq] at hw
      cases hw
    | headed _ _ h | copied _ _ _ h | failed h => simp [hq] at h
  · cases hs

theorem recvPayload_tracks (hr : Receives e f r t)
    (hs : readLinkStep f r .payload = some (r',ev)) :
    ∃ t', Moves LinkMove t ev t' ∧ Receives e f r' t' ∧ r'.buf = r.buf ∧ Takes t t' := by
  simp only [readLinkStep] at hs
  split at hs
  · rename_i header hq
    obtain ⟨rfl,rfl⟩ := Prod.mk.inj (Option.some.inj hs)
    cases hr with
    | headed _ byteLen hgot hposted hwrs hcq hlanded hread =>
      obtain rfl := ReadPos.headed.inj (hq.symm.trans hgot)
      obtain ⟨harrived,w,m,frame,hget,hframe,hlen,htake⟩ := hlanded
      refine Receives.quiet (.copied w m _ rfl hposted hwrs hcq harrived hget ?_) rfl
      rw [← hframe.read (f:=f) htake,hlen,hread]
    | waiting hw | landed _ hw | flushed hw =>
      rw [hq] at hw
      cases hw
    | got _ h | copied _ _ _ h | failed h => simp [hq] at h
  · cases hs

theorem repost_tracks {ok : Bool} (hr : Receives e f r t)
    (hs : readLinkStep f r (.repost ok) = some (r',ev)) :
    ∃ t', Moves LinkMove t ev t' ∧ Receives e f r' t' ∧ r'.buf = r.buf ∧ Takes t t' := by
  simp only [readLinkStep] at hs
  split at hs
  · rename_i n hq
    split_ifs at hs
    · obtain ⟨rfl,rfl⟩ := Prod.mk.inj (Option.some.inj hs)
      cases hr with
      | copied w m _ hgot _ hwrs hcq harrived hget hread =>
        obtain rfl := ReadPos.copied.inj (hq.symm.trans hgot)
        refine ⟨{ t with taken := t.taken + 1 },
          .single (.read w m n (by omega) hget (by rw [hread]; rfl)),?_,rfl,⟨rfl,rfl,rfl⟩⟩
        exact .waiting rfl rfl (by simp [hwrs]) hcq harrived
      | waiting hw | landed _ hw | flushed hw =>
        rw [hq] at hw
        cases hw
      | got _ h | headed _ _ h | failed h => simp [hq] at h
    · obtain ⟨rfl,rfl⟩ := Prod.mk.inj (Option.some.inj hs)
      exact Receives.quiet (hr.fail rfl rfl le_rfl) rfl
  · cases hs

theorem readLinkStep_tracks {x : ReadInput} (hr : Receives e f r t)
    (hs : readLinkStep f r x = some (r',ev)) :
    ∃ t', Moves LinkMove t ev t' ∧ Receives e f r' t' ∧ r'.buf = r.buf ∧ Takes t t' := by
  cases x with
  | enter => exact enter_tracks hr hs
  | ensure ok => exact ensure_tracks hr hs
  | poll => exact recvPoll_tracks hr hs
  | pollError => exact recvError_tracks hr hs
  | timeout => exact timeout_tracks hr hs
  | header => exact recvHeader_tracks hr hs
  | payload => exact recvPayload_tracks hr hs
  | repost ok => exact repost_tracks hr hs

omit [DecidableEq W] in
theorem Receives.more (h : Receives e f r t) {l : List (W × Msg)} (hposted : t'.posted = t.posted ++ l)
    (harrived : t'.arrived = t.arrived) (htaken : t'.taken = t.taken) : Receives e f r t' := by
  have hget : ∀ {x}, t.posted[t.taken]? = some x → t'.posted[t'.taken]? = some x := by
    intro x hx
    rw [hposted,htaken,List.getElem?_append_left (List.getElem?_eq_some_iff.mp hx).1]
    exact hx
  have hland : ∀ {byteLen}, Landed e r.buf t byteLen → Landed e r.buf t' byteLen := by
    rintro byteLen ⟨ha,w,m,frame,hx,hframe⟩
    exact ⟨by rw [harrived,htaken,ha],w,m,frame,hget hx,hframe⟩
  cases h with
  | waiting hq hp hw hc ha => exact .waiting hq hp hw hc (by rw [harrived,htaken,ha])
  | landed byteLen hq hp hw hc hl => exact .landed byteLen hq hp hw hc (hland hl)
  | flushed hq hp hw hc => exact .flushed hq hp hw hc
  | got byteLen hq hp hw hc hl => exact .got byteLen hq hp hw hc (hland hl)
  | headed header byteLen hq hp hw hc hl hread =>
    exact .headed header byteLen hq hp hw hc (hland hl) hread
  | copied w m n hq hp hw hc ha hx hread =>
    exact .copied w m n hq hp hw hc (by rw [harrived,htaken,ha]) (hget hx) hread
  | failed hq hw ha => exact .failed hq hw (by rwa [harrived,htaken])

omit [DecidableEq W] in
theorem WriteEnd.Tracks.sent (hv : v.Tracks e t) (hsame : v'.writer = v.writer ∧
    v'.writeMutex = v.writeMutex ∧ v'.buf = v.buf) (hsends : Outstanding v' t) : v'.Tracks e t := by
  obtain ⟨hwriter,hmutex,hbuf⟩ := hsame
  refine ⟨by rw [hbuf]; exact hv.size,fun w => ?_,fun w => ?_,hsends⟩
  · rw [hwriter,hmutex]
    exact hv.mutex w
  · rw [hwriter,hbuf]
    exact hv.writer w

theorem transmit_tracks (hs : s.Tracks e f t) (hstep : netStep s .transmit = some s') :
    ∃ t', Moves LinkMove t [] t' ∧ s'.Tracks e f t' := by
  simp only [netStep] at hstep
  split at hstep
  · rename_i len rest hbroken hqueue
    obtain rfl := Option.some.inj hstep
    cases hs.send.sends with
    | down _ hb => simp [hbroken] at hb
    | none hq | unacked _ _ _ _ hq | acked _ _ _ _ hq | flushed _ _ _ hq => simp [hqueue] at hq
    | queued w m hw hst hq hunacked hcq =>
      obtain ⟨rfl,rfl⟩ := List.cons.inj (hqueue.symm.trans hq)
      cases hs.transit with
      | one _ _ _ _ _ _ _ _ hb => exact absurd hunacked (hb hbroken)
      | none hwire harrived =>
        have htells := hs.send.writer w
        rw [hw] at htells
        cases htells with
        | polling _ frame _ hframe htake _ =>
          have hlen := hframe.length_eq
          refine ⟨_,.single (.post w m hst hframe.accepted harrived),⟨?_,?_,hs.size,?_⟩⟩
          · refine ⟨hs.send.size,hs.send.mutex,fun u => ?_,?_⟩
            · by_cases hu : u = w
              · subst hu
                simp only [State.setStatus,Function.update_self]
                rw [hw]
                exact .polling m frame _ hframe htake (.inr rfl)
              · simp only [State.setStatus,Function.update_of_ne hu]
                exact hs.send.writer u
            · refine .unacked w m hw (by simp [State.setStatus]) rfl ?_ hcq (by simp)
              simp [hunacked]
          · refine .one w m frame t.posted ?_ rfl harrived hframe (by simp)
            rw [hwire,← hlen,htake]
            rfl
          · exact hs.recv.more (l:=[(w,m)]) rfl rfl rfl
  · cases hstep

theorem resend_tracks (hs : s.Tracks e f t) (hstep : netStep s .resend = some s') :
    ∃ t', Moves LinkMove t [] t' ∧ s'.Tracks e f t' := by
  simp only [netStep] at hstep
  split at hstep
  · rename_i len old hbroken hunacked hwire
    obtain rfl := Option.some.inj hstep
    refine ⟨t,.refl,⟨hs.send,?_,hs.size,hs.recv⟩⟩
    cases hs.send.sends with
    | down _ hb => simp [hbroken] at hb
    | none _ hn | queued _ _ _ _ _ hn | acked _ _ _ _ _ hn | flushed _ _ _ _ hn =>
      simp [hunacked] at hn
    | unacked w m hw hst hq hn hcq hlast =>
      cases hs.transit with
      | none hnone _ => simp [hwire] at hnone
      | one u n frame before _ hposted harrived hframe hb =>
        -- what is repeated is what was posted last, from the buffer that still holds it
        have hsame : (u,n) = (w,m) := by
          rw [hposted,List.getLast?_append_cons,List.getLast?_singleton] at hlast
          exact Option.some.inj hlast
        obtain ⟨rfl,rfl⟩ := Prod.mk.inj hsame
        have htells := hs.send.writer u
        rw [hw] at htells
        cases htells with
        | polling _ again _ hagain htake _ =>
          have hlen := hagain.length_eq
          obtain ⟨rfl,-⟩ := List.cons.inj (hunacked.symm.trans hn)
          refine .one u n again before ?_ hposted harrived hagain hb
          rw [← hlen,htake]
  · cases hstep

theorem deliver_tracks (hs : s.Tracks e f t) (hstep : netStep s .deliver = some s') :
    ∃ t', Moves LinkMove t [] t' ∧ s'.Tracks e f t' := by
  simp only [netStep] at hstep
  split at hstep
  · rename_i bytes rest k _ hwire hwrs
    split_ifs at hstep with hsmall
    obtain rfl := Option.some.inj hstep
    cases hs.transit with
    | none hnone _ => simp [hwire] at hnone
    | one w m frame before hone hposted harrived hframe hb =>
      obtain ⟨rfl,rfl⟩ := List.cons.inj (hwire.symm.trans hone)
      have hlt : t.arrived < t.posted.length := by simp [hposted,harrived]
      have hfree : t.arrived = t.taken ∧ k = 0 := by
        cases hs.recv with
        | waiting _ _ hw _ ha => exact ⟨ha,by omega⟩
        | failed _ hle ha => exact ⟨ha (by omega),by omega⟩
        | landed _ _ _ hw | flushed _ _ hw | got _ _ _ hw | headed _ _ _ _ hw | copied _ _ _ _ _ hw =>
          omega
      obtain ⟨hempty,rfl⟩ := hfree
      have hland : Landed e (memcpy s.recv.buf 0 bytes) { t with arrived := t.arrived + 1 }
          bytes.length := by
        refine ⟨by simp [hempty],w,m,bytes,?_,hframe,rfl,?_⟩
        · simp [hposted,← hempty,harrived]
        · simpa using take_memcpy s.recv.buf bytes (Nat.zero_le _)
      refine ⟨_,.single (.arrive hlt hempty),⟨⟨hs.send.size,hs.send.mutex,hs.send.writer,?_⟩,?_,?_,?_⟩⟩
      · cases hs.send.sends with
        | down hd hb => exact .down hd hb
        | none hq hn hc hall => exact .none hq hn hc hall
        | queued u n hu hst hq hn hc => exact .queued u n hu hst hq hn hc
        | unacked u n hu hst hq hn hc hlast => exact .unacked u n hu hst hq hn hc hlast
        | acked _ _ _ _ _ _ _ hall => omega
        | flushed u n hu hq hn hc => exact .flushed u n hu hq hn hc
      · refine .none rfl ?_
        simp [hposted,harrived]
      · exact (memcpy_length (by rw [hs.size]; simpa using hsmall)).trans hs.size
      · cases hs.recv with
        | waiting hq hp _ hc _ => exact .landed bytes.length hq hp rfl (by simp [hc]) hland
        | failed hq hle _ =>
          refine .failed hq ?_ (by simp)
          simp only [List.length_append,List.length_singleton]
          omega
        | landed _ _ _ hw | flushed _ _ hw | got _ _ _ hw | headed _ _ _ _ hw | copied _ _ _ _ _ hw =>
          omega
  · cases hstep

theorem ack_tracks (hs : s.Tracks e f t) (hstep : netStep s .ack = some s') :
    ∃ t', Moves LinkMove t [] t' ∧ s'.Tracks e f t' := by
  simp only [netStep] at hstep
  split at hstep
  · rename_i len rest hbroken hunacked
    split_ifs at hstep with hle
    obtain rfl := Option.some.inj hstep
    cases hs.send.sends with
    | down _ hb => simp [hbroken] at hb
    | none _ hn | queued _ _ _ _ _ hn | acked _ _ _ _ _ hn | flushed _ _ _ _ hn =>
      simp [hunacked] at hn
    | unacked w m hw hst hq hn hcq hlast =>
      obtain ⟨rfl,rfl⟩ := List.cons.inj (hunacked.symm.trans hn)
      cases hs.transit with
      | one _ _ _ _ hwire => simp [hwire] at hle
      | none hwire harrived =>
        refine ⟨t,.refl,⟨hs.send.sent ⟨rfl,rfl,rfl⟩ ?_,.none hwire harrived,hs.size,hs.recv⟩⟩
        exact .acked w m hw hst hq rfl (by simp [hcq]) harrived
  · cases hstep

theorem breakSend_tracks (hs : s.Tracks e f t) (hstep : netStep s .breakSend = some s') :
    ∃ t', Moves LinkMove t [] t' ∧ s'.Tracks e f t' := by
  obtain rfl := Option.some.inj hstep
  refine ⟨t,.refl,⟨hs.send.sent ⟨rfl,rfl,rfl⟩ ?_,?_,hs.size,hs.recv⟩⟩
  · cases hs.send.sends with
    | down hd _ => exact .down hd rfl
    | none hq hn hc hall => exact .none hq hn hc hall
    | queued u n hu hst hq hn hc => exact .queued u n hu hst hq hn hc
    | unacked u n hu hst hq hn hc hlast => exact .unacked u n hu hst hq hn hc hlast
    | acked u n hu hst hq hn hc hall => exact .acked u n hu hst hq hn hc hall
    | flushed u n hu hq hn hc => exact .flushed u n hu hq hn hc
  · cases hs.transit with
    | none hwire harrived => exact .none hwire harrived
    | one w m frame before hwire hposted harrived hframe _ =>
      exact .one w m frame before hwire hposted harrived hframe (by simp)

theorem flushQueued_tracks (hs : s.Tracks e f t) (hstep : netStep s .flushQueued = some s') :
    ∃ t', Moves LinkMove t [] t' ∧ s'.Tracks e f t' := by
  simp only [netStep] at hstep
  split at hstep
  · rename_i len rest hbroken hqueue
    obtain rfl := Option.some.inj hstep
    refine ⟨t,.refl,⟨hs.send.sent ⟨rfl,rfl,rfl⟩ ?_,?_,hs.size,hs.recv⟩⟩
    · cases hs.send.sends with
      | down hd hb => exact .down hd hb
      | queued u n hu _ hq hn hc =>
        obtain ⟨-,rfl⟩ := List.cons.inj (hqueue.symm.trans hq)
        exact .flushed u n hu rfl hn (by simp [hc])
      | none hq | unacked _ _ _ _ hq | acked _ _ _ _ hq | flushed _ _ _ hq => simp [hqueue] at hq
    · cases hs.transit with
      | none hwire harrived => exact .none hwire harrived
      | one w m frame before hwire hposted harrived hframe _ =>
        exact .one w m frame before hwire hposted harrived hframe (by simp [hbroken])
  · cases hstep

theorem flushUnacked_tracks (hs : s.Tracks e f t) (hstep : netStep s .flushUnacked = some s') :
    ∃ t', Moves LinkMove t [] t' ∧ s'.Tracks e f t' := by
  simp only [netStep] at hstep
  split at hstep
  · rename_i len rest hbroken hunacked
    obtain rfl := Option.some.inj hstep
    refine ⟨t,.refl,⟨hs.send.sent ⟨rfl,rfl,rfl⟩ ?_,?_,hs.size,hs.recv⟩⟩
    · cases hs.send.sends with
      | down hd hb => exact .down hd hb
      | unacked u n hu _ hq hn hc _ =>
        obtain ⟨-,rfl⟩ := List.cons.inj (hunacked.symm.trans hn)
        exact .flushed u n hu hq rfl (by simp [hc])
      | none _ hn | queued _ _ _ _ _ hn | acked _ _ _ _ _ hn | flushed _ _ _ _ hn =>
        simp [hunacked] at hn
    · cases hs.transit with
      | none hwire harrived => exact .none hwire harrived
      | one w m frame before hwire hposted harrived hframe _ =>
        exact .one w m frame before hwire hposted harrived hframe (by simp [hbroken])
  · cases hstep

theorem flushRecv_tracks (hs : s.Tracks e f t) (hstep : netStep s .flushRecv = some s') :
    ∃ t', Moves LinkMove t [] t' ∧ s'.Tracks e f t' := by
  simp only [netStep] at hstep
  split at hstep
  · rename_i k _ hwrs
    obtain rfl := Option.some.inj hstep
    refine ⟨t,.refl,⟨hs.send,hs.transit,hs.size,?_⟩⟩
    cases hs.recv with
    | waiting hq hp hw hc _ => exact .flushed hq hp (by simp only; omega) (by simp [hc])
    | failed hq hle _ =>
      refine .failed hq ?_ (by simp only; omega)
      simp only [List.length_append,List.length_singleton]
      omega
    | landed _ _ _ hw | flushed _ _ hw | got _ _ _ hw | headed _ _ _ _ hw | copied _ _ _ _ _ hw =>
      omega
  · cases hstep

theorem netStep_tracks {a : NetAction} (hs : s.Tracks e f t) (hstep : netStep s a = some s') :
    ∃ t', Moves LinkMove t [] t' ∧ s'.Tracks e f t' := by
  cases a with
  | transmit => exact transmit_tracks hs hstep
  | resend => exact resend_tracks hs hstep
  | deliver => exact deliver_tracks hs hstep
  | ack => exact ack_tracks hs hstep
  | breakSend => exact breakSend_tracks hs hstep
  | breakRecv =>
    obtain rfl := Option.some.inj hstep
    refine ⟨t,.refl,⟨hs.send,hs.transit,hs.size,?_⟩⟩
    cases hs.recv with
    | waiting hq hp hw hc ha => exact .waiting hq hp hw hc ha
    | landed byteLen hq hp hw hc hl => exact .landed byteLen hq hp hw hc hl
    | flushed hq hp hw hc => exact .flushed hq hp hw hc
    | got byteLen hq hp hw hc hl => exact .got byteLen hq hp hw hc hl
    | headed header byteLen hq hp hw hc hl hread => exact .headed header byteLen hq hp hw hc hl hread
    | copied w m n hq hp hw hc ha hx hread => exact .copied w m n hq hp hw hc ha hx hread
    | failed hq hw ha => exact .failed hq hw ha
  | flushQueued => exact flushQueued_tracks hs hstep
  | flushUnacked => exact flushUnacked_tracks hs hstep
  | flushRecv => exact flushRecv_tracks hs hstep

omit [DecidableEq W] in
theorem InTransit.same (h : InTransit e v wire t) (hsame : v'.unacked = v.unacked ∧
    v'.broken = v.broken) (hposted : t'.posted = t.posted) (harrived : t'.arrived = t.arrived) :
    InTransit e v' wire t' := by
  cases h with
  | none hwire ha => exact .none hwire (by rw [hposted,harrived,ha])
  | one w m frame before hwire hp ha hframe hb =>
    refine .one w m frame before hwire (hposted.trans hp) (harrived.trans ha) hframe ?_
    rw [hsame.1,hsame.2]
    exact hb

omit [DecidableEq W] in
theorem WriteEnd.Tracks.takes (hv : v.Tracks e t) (ht : Takes t t') : v.Tracks e t' := by
  refine ⟨hv.size,hv.mutex,fun w => ?_,?_⟩
  · rw [ht.status]
    exact hv.writer w
  · cases hv.sends with
    | down hd hb => exact .down hd hb
    | none hq hn hc hall => exact .none hq hn hc hall
    | queued u m hu hst hq hn hc => exact .queued u m hu (by rw [ht.status,hst]) hq hn hc
    | unacked u m hu hst hq hn hc hlast =>
      exact .unacked u m hu (by rw [ht.status,hst]) hq hn hc (by rw [ht.posted,hlast])
    | acked u m hu hst hq hn hc hall =>
      exact .acked u m hu (by rw [ht.status,hst]) hq hn hc (by rw [ht.arrived,ht.posted,hall])
    | flushed u m hu hq hn hc => exact .flushed u m hu hq hn hc

theorem linkStep_tracks {a : LinkAction W} (hs : s.Tracks e f t)
    (hstep : linkStep e f s a = some (s',ev)) :
    ∃ t', Moves LinkMove t ev t' ∧ s'.Tracks e f t' := by
  cases a with
  | write w x =>
    obtain ⟨⟨v,ev'⟩,hw,heq⟩ := Option.map_eq_some_iff.mp hstep
    obtain ⟨rfl,rfl⟩ := Prod.mk.inj heq
    obtain ⟨t',hmoves,hv,hcalls⟩ := writeStep_tracks hs.send hw
    refine ⟨t',hmoves,hv,hs.transit.same (writeStep_keeps hw) hcalls.posted hcalls.arrived,hs.size,?_⟩
    exact hs.recv.more (l:=[]) (by simp [hcalls.posted]) hcalls.arrived hcalls.taken
  | read x =>
    obtain ⟨⟨r,ev'⟩,hr,heq⟩ := Option.map_eq_some_iff.mp hstep
    obtain ⟨rfl,rfl⟩ := Prod.mk.inj heq
    obtain ⟨t',hmoves,hrecv,hbuf,htakes⟩ := readLinkStep_tracks hs.recv hr
    exact ⟨t',hmoves,hs.send.takes htakes,hs.transit.same ⟨rfl,rfl⟩ htakes.posted htakes.arrived,
      (congrArg List.length hbuf).trans hs.size,hrecv⟩
  | net a =>
    obtain ⟨t,hn,heq⟩ := Option.map_eq_some_iff.mp hstep
    obtain ⟨rfl,rfl⟩ := Prod.mk.inj heq
    exact netStep_tracks hs hn

omit [DecidableEq W] in
theorem Link.Built.tracks (hs : s.Built) : s.Tracks e f State.initial := by
  obtain ⟨hsend,hrecv,heq⟩ := hs
  rw [heq]
  refine ⟨⟨hsend,fun w => by simp [WritePos.inside],fun w => .idle,?_⟩,.none rfl rfl,hrecv,?_⟩
  · exact .none rfl rfl rfl (by simp)
  · exact .waiting rfl rfl rfl rfl rfl

variable {hist : List (Visible W Msg Msg)}

/-- A run of a link shows what a run of a mailbox shows. -/
theorem run_tracks (hr : Run (linkMachine W e f) s hist) :
    ∃ t, s.Tracks e f t ∧ Moves LinkMove State.initial hist t := by
  have hsim : ∃ t, s.Tracks e f t ∧ Moves LinkMove State.initial (hist.filterMap some) t := by
    refine hr.simulated ?_ ?_
    · intro s hs
      exact Link.Built.tracks hs
    · intro s h a s' ev t _ hs _ _ hstep
      rw [List.filterMap_some]
      exact linkStep_tracks hs hstep
  rwa [List.filterMap_some] at hsim

/-- Whatever the writers, the adapters and the reader do in whatever order, and wherever the
connection breaks, what is seen from outside is what is seen of a mailbox: a message whose write
returned true has arrived, none arrives twice, those of one writer arrive in the order of its
calls, and what is read is what was written, bit for bit. -/
theorem link_delivers (hr : Run (linkMachine W e f) s hist) :
    ∃ t, Moves LinkMove State.initial hist t ∧
      Delivers (fun m => (transfer m).toOption) t hist := by
  obtain ⟨t,-,hmoves⟩ := run_tracks hr
  exact ⟨t,hmoves,delivers_of_moves hmoves⟩

def soloLink : Link Unit where
  send := { writer := fun _ => .idle, writeMutex := none, buf := List.replicate srMaxMsgSize 0
            queue := [], unacked := [], cq := [], cqDown := false, broken := false }
  wire := []
  recv := { reader := .idle, buf := List.replicate srMaxMsgSize 0, wrs := 1, cq := []
            posted := true, broken := false }

theorem soloLink_built : soloLink.Built := ⟨List.length_replicate,List.length_replicate,rfl⟩

/-- A HELLO of rank 3 is sent, repeated by the adapter, and read. -/
def soloHello : List (LinkAction Unit) :=
  [.write () (.call ⟨{ MsgHeader.new .hello 0 with runId := 1, srcRank := 3 },Bytes.empty⟩),
    .write () .lock,.write () (.header [1,2,3,4]),.write () .payload,.write () (.post true),
    .net .transmit,.net .resend,.read .enter,.read (.ensure false),.net .deliver,.net .ack,
    .write () .poll,.read .poll,.read .header,.read .payload,.read (.repost true)]

theorem link_delivers_sample : ∃ hist : List (Visible Unit Msg Msg),
    (readsOf hist).map (fun m => m.header.srcRank) = [3] ∧
      (sentBy () hist).map (fun m => m.header.srcRank) = [3] ∧
      ∃ t, Moves LinkMove State.initial hist t ∧
        Delivers (fun m => (transfer m).toOption) t hist := by
  obtain ⟨s,hist,hr,hp⟩ := exists_run_of_replay (linkMachine Unit .little .big) (fun _ _ => true)
    soloLink soloHello (fun _ hist => (readsOf hist).map (fun m => m.header.srcRank) = [3] ∧
      (sentBy () hist).map (fun m => m.header.srcRank) = [3]) soloLink_built (by decide +kernel)
  simp only [decide_eq_true_eq] at hp
  exact ⟨hist,hp.1,hp.2,link_delivers hr.run⟩

/-- What the two buffers of a link are safe from. -/
structure BuffersSafe (s : Link W) : Prop where
  /-- At most one thread is between the copies into `send_buf` and the completion. -/
  oneWriter : ∀ u w, (s.send.writer u).inside = true → (s.send.writer w).inside = true → u = w
  /-- No send that reads `send_buf` is posted while a writer fills it. -/
  filling : s.send.broken = false → ∀ w, (s.send.writer w).inside = true →
    (∀ m, s.send.writer w ≠ .polling m) → s.send.queue = [] ∧ s.send.unacked = []
  /-- There is never more than one send or completion of a send. -/
  sends : s.send.cqDown = false →
    s.send.queue.length + s.send.unacked.length + s.send.cq.length ≤ 1
  /-- There is never more than one receive or completion of a receive. -/
  receives : s.recv.wrs + s.recv.cq.length ≤ 1
  /-- No receive is posted from the completion of one until its message is copied out. -/
  copying : s.recv.reader.waiting = false → s.recv.reader ≠ .failed →
    s.recv.wrs = 0 ∧ s.recv.posted = false

omit [DecidableEq W] in
theorem Link.Tracks.buffersSafe (hs : s.Tracks e f t) : BuffersSafe s := by
  refine ⟨fun u w hu hw => hs.send.alone hw hu,fun hbroken w hin hw => ?_,fun hdown => ?_,?_,?_⟩
  · rcases hs.send.settled hin hw with ⟨-,hb⟩ | ⟨hqueue,hunacked,-,-⟩
    · simp [hbroken] at hb
    · exact ⟨hqueue,hunacked⟩
  · cases hs.send.sends with
    | down hd _ => simp [hdown] at hd
    | none hq hn hc | queued _ _ _ _ hq hn hc | unacked _ _ _ _ hq hn hc | acked _ _ _ _ hq hn hc
    | flushed _ _ _ hq hn hc => simp [hq,hn,hc]
  · cases hs.recv with
    | waiting _ _ hw hc | landed _ _ _ hw hc | flushed _ _ hw hc | got _ _ _ hw hc
    | headed _ _ _ _ hw hc | copied _ _ _ _ _ hw hc => simp [hw,hc]
    | failed _ hle => exact hle
  · intro hwaiting hfailed
    cases hs.recv with
    | waiting hq | landed _ hq | flushed hq => simp [hwaiting] at hq
    | got _ _ hp hw | headed _ _ _ hp hw | copied _ _ _ _ hp hw => exact ⟨hw,hp⟩
    | failed hq => exact absurd hq hfailed

theorem link_buffersSafe (hr : Run (linkMachine W e f) s hist) : BuffersSafe s := by
  obtain ⟨t,htracks,-⟩ := run_tracks hr
  exact htracks.buffersSafe

/-- A fresh connection of the switch to a host, and two of its readers with a message for it. -/
def sharedLink : Link Bool :=
  { soloLink with send := { soloLink.send with writer := fun _ => .idle, writeMutex := none } }

theorem sharedLink_built : sharedLink.Built := ⟨List.length_replicate,List.length_replicate,rfl⟩

/-- The first writer posts while the second one waits for the mutex.  When its frame has arrived it
leaves, and the second one fills the buffer while the host still copies the first frame out. -/
def sharedWrites : List (LinkAction Bool) :=
  [.write true (.call ⟨MsgHeader.new .ack 0,Bytes.empty⟩),.write true .lock,
    .write false (.call ⟨MsgHeader.new .notReady 0,Bytes.empty⟩),.write true (.header [0,0,0,0]),
    .write true .payload,.write true (.post true),.net .transmit,.read .enter,
    .read (.ensure true),.net .deliver,.net .ack,.write true .poll,.write false .lock,
    .write false (.header [0,0,0,0]),.read .poll,.read .header]

theorem link_buffersSafe_sample : ∃ (s : Link Bool) (hist : List (Visible Bool Msg Msg)),
    Run (linkMachine Bool .little .big) s hist ∧ (sentBy true hist).length = 1 ∧
    s.send.writeMutex = some false ∧ s.send.cqDown = false ∧ s.recv.wrs = 0 ∧ BuffersSafe s := by
  obtain ⟨s,hist,hr,hp⟩ := exists_run_of_replay (linkMachine Bool .little .big) (fun _ _ => true)
    sharedLink sharedWrites (fun s hist => decide ((sentBy true hist).length = 1 ∧
      s.send.writeMutex = some false ∧ s.send.cqDown = false ∧ s.recv.wrs = 0)) sharedLink_built
    (by decide +kernel)
  simp only [decide_eq_true_eq] at hp
  obtain ⟨hsent,hmutex,hdown,hwrs⟩ := hp
  exact ⟨s,hist,hr.run,hsent,hmutex,hdown,hwrs,link_buffersSafe hr.run⟩

end INA2A

import INA2A.Lib.Machine
import INA2A.Protocol

/-! The switch (`switch_main.cc`): combine slots, message handlers, reader threads, shutdown.
Every locked section of a handler and every `sr_write` is a step of its own, so the
steps of different reader threads interleave freely. -/
namespace INA2A

open ByteBuffers BitWords EventMachine

variable {N : ℕ}

structure QueueSlot where
  data : Bytes
  requestedBitmap : U64
  pendingBitmap : U64
  expectedBitmap : U64
  ready : Bool
  runId : U64
  microbatchId : U64
  tokenId : U64
  senderRank : U32
  originRank : U32
  globalIdx : U64
  payloadLen : U32

def QueueSlot.key (slot : QueueSlot) : CombineKey where
  runId := slot.runId
  microbatchId := slot.microbatchId
  tokenId := slot.tokenId
  originRank := slot.originRank
  globalIdx := slot.globalIdx

/-- `pending_bitmap &= ~bit`, and `ready` once nothing is pending. -/
def QueueSlot.clearPending (slot : QueueSlot) (rank : ℕ) : QueueSlot :=
  let pending := slot.pendingBitmap &&& ~~~bit 64 rank
  { slot with
    pendingBitmap := pending
    ready := if pending = 0 then true else slot.ready }

/-- Add a result into the slot and switch its expert's bit off. -/
def QueueSlot.aggregate (slot : QueueSlot) (rank : ℕ) (payload : Bytes) : QueueSlot :=
  { slot.clearPending rank with data := slot.data.addInto payload }

abbrev CombineQueue := CombineKey → Option QueueSlot

def decodeExpertIds (bitmap : U64) (numExperts : ℕ) : List ℕ :=
  let ids := (List.range (min numExperts 64)).filter fun e => (bitmap >>> e) &&& 1#64 ≠ 0
  if ids = [] ∧ 0 < numExperts then [0] else ids

/-- `ids` in `decode_expert_ids` before the fallback. -/
def scannedIds (bitmap : U64) (numExperts : ℕ) : List ℕ :=
  (List.range (min numExperts 64)).filter fun e => (bitmap >>> e) &&& 1#64 ≠ 0

theorem scannedIds_eq (bitmap : U64) {n : ℕ} (hn : n ≤ 64) : scannedIds bitmap n = bits bitmap n := by
  rw [scannedIds,bits,Nat.min_eq_left hn]
  apply List.filter_congr
  intro e _
  rw [Bool.eq_iff_iff,decide_eq_true_eq]
  exact shift_and_one_ne_zero bitmap e

theorem decodeExpertIds_scanned {bitmap : U64} {n : ℕ} (h : scannedIds bitmap n ≠ []) :
    decodeExpertIds bitmap n = scannedIds bitmap n :=
  if_neg fun hempty => h hempty.1

theorem decodeExpertIds_fallback {bitmap : U64} {n : ℕ} (h : scannedIds bitmap n = []) (hn : 0 < n) :
    decodeExpertIds bitmap n = [0] := if_pos ⟨h,hn⟩

theorem decodeExpertIds_lt {bitmap : U64} {n id : ℕ} (h : id ∈ decodeExpertIds bitmap n) :
    id < n := by
  unfold decodeExpertIds at h
  dsimp only at h
  split_ifs at h with hempty
  · rw [List.mem_singleton] at h
    omega
  · have := List.mem_range.mp (List.mem_of_mem_filter h)
    omega

/-- The locked section of `handle_expert_result`; a rejection leaves the queue as it was. -/
def handleExpertResult (queue : CombineQueue) (m : Msg) : Except Fault CombineQueue :=
  let key := makeKey m.header
  match queue key with
  | none => .error .unknownToken
  | some slot =>
    if m.payload.size ≠ slot.payloadLen.toNat then .error .sizeMismatch
    else if 64 ≤ m.header.srcRank.toNat then .error .invalidExpertRank
    else if slot.pendingBitmap &&& bit 64 m.header.srcRank.toNat = 0 then
      .error .duplicateOrUnexpected
    else .ok (Function.update queue key (some (slot.aggregate m.header.srcRank.toNat m.payload)))

def newSlot (header : MsgHeader) (expected : U64) : QueueSlot where
  data := Bytes.zeros header.payloadLen.toNat
  requestedBitmap := header.expertBitmap
  pendingBitmap := expected
  expectedBitmap := expected
  ready := expected = 0
  runId := header.runId
  microbatchId := header.microbatchId
  tokenId := header.tokenId
  senderRank := header.srcRank
  originRank := header.originRank
  globalIdx := header.globalIdx
  payloadLen := header.payloadLen

/-- The failure branch of the send loop in `handle_dispatch_token`. -/
def clearTarget (queue : CombineQueue) (key : CombineKey) (rank : ℕ) : CombineQueue :=
  match queue key with
  | none => queue
  | some slot => Function.update queue key (some (slot.clearPending rank))

def expertInputMsg (src : Msg) (rank : ℕ) (ts : U64) : Msg where
  header := { MsgHeader.new .expertInput src.header.payloadLen with
    runId := src.header.runId
    microbatchId := src.header.microbatchId
    tokenId := src.header.tokenId
    dstRank := BitVec.ofNat 32 rank
    originRank := src.header.originRank
    expertBitmap := src.header.expertBitmap
    globalIdx := src.header.globalIdx
    timestampNs := ts }
  payload := src.payload

def ackMsg (src : MsgHeader) (ts : U64) : Msg where
  header := { MsgHeader.new .ack 0 with
    runId := src.runId
    microbatchId := src.microbatchId
    tokenId := src.tokenId
    dstRank := src.srcRank
    originRank := src.originRank
    expertBitmap := src.expertBitmap
    globalIdx := src.globalIdx
    timestampNs := ts }
  payload := Bytes.empty

def combineResultMsg (src : MsgHeader) (slot : QueueSlot) (ts : U64) : Msg where
  header := { MsgHeader.new .combineResult slot.payloadLen with
    runId := src.runId
    microbatchId := src.microbatchId
    tokenId := src.tokenId
    dstRank := src.srcRank
    originRank := src.originRank
    expertBitmap := slot.expectedBitmap
    globalIdx := src.globalIdx
    timestampNs := ts }
  payload := slot.data

def notReadyMsg (src : MsgHeader) (ts : U64) : Msg where
  header := { MsgHeader.new .notReady 0 with
    runId := src.runId
    microbatchId := src.microbatchId
    tokenId := src.tokenId
    dstRank := src.srcRank
    originRank := src.originRank
    globalIdx := src.globalIdx
    timestampNs := ts }
  payload := Bytes.empty

def broadcastFinishMsg (runId : U64) (rank : ℕ) (ts : U64) : Msg where
  header := { MsgHeader.new .finish 0 with
    runId := runId
    dstRank := BitVec.ofNat 32 rank
    timestampNs := ts }
  payload := Bytes.empty

/-- What the switch, and in a whole system its hosts, let an observer see. -/
inductive Event (N : ℕ)
  | toSwitch (h : Fin N) (m : Msg)
  | toHost (g : Fin N) (m : Msg)
  | enqueued (h : Fin N) (m : Msg)
  | created (k : CombineKey)
  | accepted (k : CombineKey) (rank : ℕ) (payload : Bytes)
  | cleared (k : CombineKey) (rank : ℕ)
  | taken (k : CombineKey) (bitmap : U64) (data : Bytes)
  | dispatched (k : CombineKey)
  | rejected (f : Fault)
  | broadcast
  | dropped
  | entersRead (g : Fin N)
  | entersWrite (g : Fin N)
  | closed (g : Fin N)

/-- The locked section of `handle_combine_pull_req` with the reply it decides on. -/
def handleCombinePullReq (queue : CombineQueue) (header : MsgHeader) (ts : U64) :
    CombineQueue × Msg × List (Event N) :=
  let key := makeKey header
  match queue key with
  | some slot =>
    if slot.ready then
      (Function.update queue key none, combineResultMsg header slot ts,
        [.taken key slot.expectedBitmap slot.data])
    else (queue, notReadyMsg header ts, [])
  | none => (queue, notReadyMsg header ts, [.rejected .slotDoesNotExist])

/-- Program positions of `host_reader_loop` and of the handlers it calls. -/
inductive ReaderPos (N : ℕ)
  | notStarted
  | top
  | reading
  | got (m : Msg)
  | looking (m : Msg) (ids : List ℕ) (targets : List (Fin N))
  | dispatching (m : Msg) (targets : List (Fin N))
  | clearing (m : Msg) (target : Fin N) (rest : List (Fin N))
  | replying (response : Msg)
  | broadcasting (runId : U64) (rest : List (Fin N))
  | closing (rest : List (Fin N))
  | nulling (g : Fin N) (rest : List (Fin N))
  | exited (failed : Bool)

inductive MainPos (N : ℕ)
  | joining
  | closing (rest : List (Fin N))
  | nulling (g : Fin N) (rest : List (Fin N))
  | done

structure Switch (N : ℕ) where
  hosts : Fin N → Bool
  /-- `host->conn` is not null. -/
  conn : Fin N → Bool
  /-- The `SrConn` itself has not been closed. -/
  opened : Fin N → Bool
  combineQueue : CombineQueue
  finishedHosts : Finset (Fin N)
  running : Bool
  reader : Fin N → ReaderPos N
  /-- Set while the reader is inside `sr_write`, holding the target's `write_mutex`;
  the value is the timestamp of the header being sent. -/
  writing : Fin N → Option U64
  main : MainPos N

def Switch.initial : Switch N where
  hosts _ := false
  conn _ := false
  opened _ := false
  combineQueue _ := none
  finishedHosts := ∅
  running := true
  reader _ := .notStarted
  writing _ := none
  main := .joining

def Switch.setReader (s : Switch N) (h : Fin N) (p : ReaderPos N) : Switch N :=
  { s with reader := Function.update s.reader h p }

def findHost (s : Switch N) (rank : ℕ) : Option (Fin N) :=
  if h : rank < N then if s.hosts ⟨rank,h⟩ then some ⟨rank,h⟩ else none else none

def snapshotHosts (s : Switch N) : List (Fin N) := (List.finRange N).filter s.hosts

/-- `expected_bitmap`, accumulated over the targets that were found. -/
def expectedBitmap (targets : List (Fin N)) : U64 := ofBits 64 (targets.map Fin.val)

/-- The host a reader at this position calls `send_to_host` on next. -/
def sendTarget (h : Fin N) : ReaderPos N → Option (Fin N)
  | .dispatching _ (g::_) => some g
  | .dispatching _ [] => some h
  | .replying _ => some h
  | .broadcasting _ (g::_) => some g
  | _ => none

/-- The message of that `send_to_host` call, its header stamped with `ts`. -/
def sendMsg (ts : U64) : ReaderPos N → Msg
  | .dispatching m (g::_) => expertInputMsg m g ts
  | .dispatching m [] => ackMsg m.header ts
  | .replying response => response
  | .broadcasting runId (g::_) => broadcastFinishMsg runId g ts
  | _ => ⟨MsgHeader.new .hello 0,Bytes.empty⟩

/-- Where the handler continues once `send_to_host` has returned `ok`. -/
def afterSend (ok : Bool) : ReaderPos N → ReaderPos N
  | .dispatching m (g::rest) => if ok then .dispatching m rest else .clearing m g rest
  | .dispatching _ [] => .top
  | .replying _ => .top
  | .broadcasting runId (_::rest) => .broadcasting runId rest
  | p => p

def afterSendEvents : ReaderPos N → List (Event N)
  | .dispatching m [] => [.dispatched (makeKey m.header)]
  | _ => []

/-- No reader is inside `sr_write` towards `g`. -/
def writeMutexFree (s : Switch N) (g : Fin N) : Prop :=
  ∀ r, s.writing r = none ∨ sendTarget r (s.reader r) ≠ some g

instance (s : Switch N) (g : Fin N) : Decidable (writeMutexFree s g) := by
  unfold writeMutexFree; infer_instance

/-- One received message: the handler's first locked section, or the branch that rejects it. -/
def handleMessage (s : Switch N) (h : Fin N) (m : Msg) (ts : U64) :
    Switch N × List (Event N) :=
  match m.header.kind with
  | some .dispatchToken =>
    if m.payload.size ≠ m.header.payloadLen.toNat then
      (s.setReader h .top,[.rejected .payloadSizeMismatch])
    else (s.setReader h (.looking m (decodeExpertIds m.header.expertBitmap N) []),[])
  | some .expertResult =>
    match handleExpertResult s.combineQueue m with
    | .error f => (s.setReader h .top,[.rejected f])
    | .ok queue => ({ s.setReader h .top with combineQueue := queue },
        [.accepted (makeKey m.header) m.header.srcRank.toNat m.payload])
  | some .combinePullReq =>
    let r := handleCombinePullReq s.combineQueue m.header ts
    ({ s.setReader h (.replying r.2.1) with combineQueue := r.1 },r.2.2)
  | some .ack => (s.setReader h .top,[])
  | some .finish =>
    let finished := insert h s.finishedHosts
    if N ≤ finished.card then
      ({ s.setReader h (.broadcasting m.header.runId (snapshotHosts s)) with
        finishedHosts := finished },[.broadcast])
    else ({ s.setReader h .top with finishedHosts := finished },[])
  | _ => (s.setReader h .top,[.rejected .ignoredBySwitch])

/-- Slot creation, after the last `find_host`; an existing slot is overwritten. -/
def createSlot (s : Switch N) (h : Fin N) (m : Msg) (targets : List (Fin N)) :
    Switch N × List (Event N) :=
  let key := makeKey m.header
  ({ s.setReader h (.dispatching m targets) with
      combineQueue := Function.update s.combineQueue key
        (some (newSlot m.header (expectedBitmap targets))) },
    (if (s.combineQueue key).isSome then [.rejected .overwritingSlot] else []) ++ [.created key])

/-- Whether a failed send finds a slot whose pending bit it clears. -/
def clearedEvents (queue : CombineQueue) (key : CombineKey) (rank : ℕ) : List (Event N) :=
  match queue key with
  | none => []
  | some slot => if slot.pendingBitmap.getLsbD rank then [.cleared key rank] else []

/-- What the environment decides about a reader's step. -/
inductive ReaderInput
  | go (ts : U64)
  | recv (m : Msg)
  | recvFail
  | sent (ok : Bool)

/-- The send a reader is about to make: a null connection fails at once, otherwise the
thread needs the target's `write_mutex` and then is inside `sr_write`. -/
def enterSend (s : Switch N) (h g : Fin N) (ts : U64) : Option (Switch N × List (Event N)) :=
  if s.conn g = false then
    some (s.setReader h (afterSend false (s.reader h)),afterSendEvents (s.reader h))
  else if writeMutexFree s g then
    some ({ s with writing := Function.update s.writing h (some ts) },[.entersWrite g])
  else none

def finishSend (s : Switch N) (h g : Fin N) (ts : U64) (ok : Bool) : Switch N × List (Event N) :=
  ({ s.setReader h (afterSend ok (s.reader h)) with writing := Function.update s.writing h none },
    (if ok then [.toHost g (sendMsg ts (s.reader h))] else []) ++ afterSendEvents (s.reader h))

/-- Steps of a reader that is not inside `sr_write`. -/
def readerLocal (s : Switch N) (h : Fin N) (ts : U64) : Option (Switch N × List (Event N)) :=
  match s.reader h with
  | .top =>
    if s.running && s.conn h then some (s.setReader h .reading,[.entersRead h])
    else some (s.setReader h (.exited false),[])
  | .got m => some (handleMessage s h m ts)
  | .looking m (id::ids) targets =>
    match findHost s id with
    | none => some (s.setReader h (.looking m ids targets),[.rejected .noConnectedHost])
    | some g => some (s.setReader h (.looking m ids (targets ++ [g])),[])
  | .looking m [] targets => some (createSlot s h m targets)
  | .clearing m g rest =>
    let key := makeKey m.header
    some ({ s.setReader h (.dispatching m rest) with
      combineQueue := clearTarget s.combineQueue key g },clearedEvents s.combineQueue key g)
  | .broadcasting _ [] =>
    some ({ s.setReader h (.closing (snapshotHosts s)) with running := false },[])
  | .closing (g::rest) =>
    if s.conn g then
      some ({ s.setReader h (.nulling g rest) with opened := Function.update s.opened g false },
        [.closed g])
    else some (s.setReader h (.closing rest),[])
  | .nulling g rest =>
    some ({ s.setReader h (.closing rest) with conn := Function.update s.conn g false },[])
  | .closing [] => some (s.setReader h (.exited false),[])
  | p =>
    match sendTarget h p with
    | some g => enterSend s h g ts
    | none => none

def readerStep (s : Switch N) (h : Fin N) : ReaderInput → Option (Switch N × List (Event N))
  | .go ts => if s.writing h = none then readerLocal s h ts else none
  | .recv m =>
    match s.reader h with
    | .reading => some (s.setReader h (.got m),[])
    | _ => none
  | .recvFail =>
    match s.reader h with
    | .reading => some (s.setReader h (.exited true),[])
    | _ => none
  | .sent ok =>
    match s.writing h, sendTarget h (s.reader h) with
    | some ts, some g => some (finishSend s h g ts ok)
    | _, _ => none

def ReaderPos.isExited : ReaderPos N → Bool
  | .exited _ => true
  | _ => false

/-- `main` after the accept loop: join every reader, then close what is still open. -/
def mainStep (s : Switch N) : Option (Switch N × List (Event N)) :=
  match s.main with
  | .joining =>
    if ∀ h, (s.reader h).isExited = true then
      some ({ s with running := false, main := .closing (snapshotHosts s) },[])
    else none
  | .closing (g::rest) =>
    if s.conn g then
      some ({ s with main := .nulling g rest, opened := Function.update s.opened g false },
        [.closed g])
    else some ({ s with main := .closing rest },[])
  | .nulling g rest =>
    some ({ s with main := .closing rest, conn := Function.update s.conn g false },[])
  | .closing [] => some ({ s with main := .done },[])
  | .done => none

inductive SwitchAction (N : ℕ)
  | accept (g : Fin N)
  | start (h : Fin N)
  | reader (h : Fin N) (i : ReaderInput)
  | main

/-- One step of the switch. The accept loop registers a rank once; the reader threads are
started only after it has registered all of them. -/
def switchStep (s : Switch N) : SwitchAction N → Option (Switch N × List (Event N))
  | .accept g =>
    if s.hosts g then none
    else some ({ s with hosts := Function.update s.hosts g true,
                        conn := Function.update s.conn g true,
                        opened := Function.update s.opened g true },[])
  | .start h =>
    match s.reader h with
    | .notStarted => if ∀ g, s.hosts g = true then some (s.setReader h .top,[]) else none
    | _ => none
  | .reader h i => readerStep s h i
  | .main => mainStep s

/-- The switch under arbitrary traffic: any message may arrive on any connection, any
receive may fail, and every `sr_write` may succeed or fail. -/
def switchMachine (N : ℕ) : Machine (Switch N) (SwitchAction N) (Event N) where
  init s := s = Switch.initial
  step := switchStep

end INA2A

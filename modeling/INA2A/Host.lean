import INA2A.Switch
import INA2A.Transport
import INA2A.Workload

/-! A host (`host_main.cc`): its two queues, the token window, the control tick, the expert
and attention computations, and the three ways its loops are spread over threads.
Every locked section, every queue operation and every `sr_write` is a step of its own. -/
namespace INA2A

open ByteBuffers BitWords

variable {N : ℕ}

structure BlockingQueue (α : Type) where
  items : List α
  closed : Bool

namespace BlockingQueue

variable {α : Type}

def empty : BlockingQueue α := ⟨[],false⟩

def push (q : BlockingQueue α) (a : α) : BlockingQueue α :=
  if q.closed then q else { q with items := q.items ++ [a] }

def close (q : BlockingQueue α) : BlockingQueue α := { q with closed := true }

end BlockingQueue

inductive LoopMode
  | fourLoops | ioCombined | allCombined
  deriving DecidableEq, Repr

inductive ComputeTask
  | localAttention (tokenIndex : ℕ)
  | expertMlp (m : Msg)

/-- Times are in nanoseconds since the tokens were set up. -/
structure TokenWindowState where
  admitted : Bool
  attentionQueued : Bool
  attentionDone : Bool
  dispatchEnqueued : Bool
  dispatchAcked : Bool
  pullInflight : Bool
  pullAttempts : ℕ
  combineDone : Bool
  nextPullTime : ℕ
  combinePayload : Bytes

def TokenWindowState.initial : TokenWindowState where
  admitted := false
  attentionQueued := false
  attentionDone := false
  dispatchEnqueued := false
  dispatchAcked := false
  pullInflight := false
  pullAttempts := 0
  combineDone := false
  nextPullTime := 0
  combinePayload := Bytes.empty

/-- What a host is started with. -/
structure HostEnv where
  rank : ℕ
  workload : List TokenDesc
  windowSize : ℤ
  mode : LoopMode

/-- Where `control_tick` is: the pulls it has still to push, with whether an admission and a
FINISH follow, and then the admitted tokens it has still to push. -/
inductive Control
  | pulling (pulls : List ℕ) (moved : Bool) (fin : Option Msg)
  | admitted (tasks : List ℕ) (fin : Option Msg)

def Control.idle : Control → Bool
  | .admitted [] none => true
  | _ => false

inductive Computing
  | top
  | popping
  | task (t : ComputeTask)
  | pushing (m : Msg)
  | exited

inductive Sending
  | top
  | popping
  | writing (m : Msg)
  | exited

inductive Reading
  | top
  | reading
  | got (m : Msg)
  | exited

/-- Which part of its loop body the thread of a combined loop is in. -/
inductive Turn
  | control (ticked : Bool)
  | compute
  | drain (left : ℕ)
  | read
  | exited

structure Host where
  running : Bool
  sendQueue : BlockingQueue Msg
  computeQueue : BlockingQueue ComputeTask
  tokenStates : List TokenWindowState
  windowBase : ℕ
  nextToAdmit : ℕ
  receivedCombines : ℕ
  finishEnqueued : Bool
  control : Control
  computing : Computing
  sending : Sending
  reading : Reading
  turn : Turn

def HostEnv.numTokens (env : HostEnv) : ℕ := env.workload.length

/-- The loops start with an admission, in every mode. -/
def Host.initial (env : HostEnv) : Host where
  running := true
  sendQueue := BlockingQueue.empty
  computeQueue := BlockingQueue.empty
  tokenStates := List.replicate env.numTokens TokenWindowState.initial
  windowBase := 0
  nextToAdmit := 0
  receivedCombines := 0
  finishEnqueued := false
  control := .pulling [] true none
  computing := .top
  sending := .top
  reading := .top
  turn := if env.mode = .ioCombined then .drain 64 else .control false

def shutdownRuntime (h : Host) : Host :=
  { h with
    running := false
    sendQueue := h.sendQueue.close
    computeQueue := h.computeQueue.close }

/-- `enqueue_send` copies the first `payload_len` bytes. -/
def outMsg (header : MsgHeader) (payload : Bytes) : Msg :=
  ⟨header,payload.take header.payloadLen.toNat⟩

def combinePullMsg (env : HostEnv) (token : TokenDesc) (tokenIndex : ℕ) (ts : U64) : Msg :=
  outMsg { MsgHeader.new .combinePullReq 0 with
    runId := token.runId
    microbatchId := token.microbatchId
    tokenId := token.tokenId
    srcRank := BitVec.ofNat 32 env.rank
    originRank := token.originRank
    expertBitmap := token.expertBitmap
    globalIdx := BitVec.ofNat 64 tokenIndex
    timestampNs := ts } Bytes.empty

def expertResultMsg (env : HostEnv) (input : Msg) (ts : U64) : Msg :=
  outMsg { MsgHeader.new .expertResult (BitVec.ofNat 32 input.payload.size) with
    runId := input.header.runId
    microbatchId := input.header.microbatchId
    tokenId := input.header.tokenId
    srcRank := BitVec.ofNat 32 env.rank
    originRank := input.header.originRank
    expertBitmap := input.header.expertBitmap
    globalIdx := input.header.globalIdx
    timestampNs := ts }
    (Bytes.tabulate input.payload.size fun i => input.payload.get i * 2)

def attentionPayload (token : TokenDesc) : Bytes :=
  Bytes.tabulate token.payloadLen.toNat fun i => (token.tokenId + BitVec.ofNat 64 i).setWidth 8

def dispatchTokenMsg (token : TokenDesc) (tokenIndex : ℕ) (ts : U64) : Msg :=
  outMsg { MsgHeader.new .dispatchToken token.payloadLen with
    runId := token.runId
    microbatchId := token.microbatchId
    tokenId := token.tokenId
    srcRank := token.srcRank
    originRank := token.originRank
    expertBitmap := token.expertBitmap
    globalIdx := BitVec.ofNat 64 tokenIndex
    timestampNs := ts } (attentionPayload token)

def hostFinishMsg (env : HostEnv) (ts : U64) : Msg :=
  outMsg { MsgHeader.new .finish 0 with
    runId := match env.workload with | [] => 0 | token::_ => token.runId
    srcRank := BitVec.ofNat 32 env.rank
    originRank := BitVec.ofNat 32 env.rank
    timestampNs := ts } Bytes.empty

/-- A push on a closed queue drops the item. -/
def pushSend (g : Fin N) (h : Host) (m : Msg) : Host × List (Event N) :=
  ({ h with sendQueue := h.sendQueue.push m },
    if h.sendQueue.closed then [.dropped] else [.enqueued g m])

def pushCompute (h : Host) (t : ComputeTask) : Host × List (Event N) :=
  ({ h with computeQueue := h.computeQueue.push t },
    if h.computeQueue.closed then [.dropped] else [])

/-- The 32-bit `int` that an addition of `int`s or a `static_cast<int>` yields. -/
def int32 (x : ℤ) : ℤ := x.bmod (2 ^ 32)

theorem int32_le {x : ℤ} (hlow : -2 ^ 31 ≤ x) : int32 x ≤ x := by
  rw [int32,Int.bmod_def]
  split_ifs <;> omega

theorem int32_eq {x : ℤ} (hlow : -2 ^ 31 ≤ x) (hhigh : x < 2 ^ 31) : int32 x = x := by
  rw [int32,Int.bmod_def]
  split_ifs <;> omega

def updateTokens (states : List TokenWindowState) (indices : List ℕ)
    (f : TokenWindowState → TokenWindowState) : List TokenWindowState :=
  indices.foldl (fun sts i => sts.modify i f) states

/-- The loop of `try_admit_raw_tokens_to_compute_queue` from index `next`, at most `fuel`
indices long. -/
def admittedIndices (env : HostEnv) (windowBase : ℕ) : ℕ → ℕ → List ℕ
  | 0, _ => []
  | fuel + 1, next =>
    if (next : ℤ) < int32 (windowBase + env.windowSize) then
      next::admittedIndices env windowBase fuel (next + 1)
    else []

/-- The locked section of `try_admit_raw_tokens_to_compute_queue`; `fin` is for later. -/
def tryAdmitRawTokens (env : HostEnv) (h : Host) (fin : Option Msg) : Host :=
  let admitted := admittedIndices env h.windowBase (env.numTokens - h.nextToAdmit) h.nextToAdmit
  { h with
    tokenStates := updateTokens h.tokenStates admitted fun st =>
      { st with admitted := true, attentionQueued := true }
    nextToAdmit := h.nextToAdmit + admitted.length
    control := .admitted admitted fin }

def TokenWindowState.pullDue (st : TokenWindowState) (now : ℕ) : Bool :=
  st.admitted && st.attentionDone && st.dispatchAcked && !st.combineDone && !st.pullInflight &&
    decide (st.nextPullTime ≤ now)

def needPull (h : Host) (now : ℕ) : List ℕ :=
  (List.range' h.windowBase (h.nextToAdmit - h.windowBase)).filter fun i =>
    h.tokenStates[i]?.any (·.pullDue now)

/-- The release loop of `control_tick`, from `base`, over at most `fuel` tokens. -/
def slideWindow (states : List TokenWindowState) : ℕ → ℕ → ℕ
  | 0, base => base
  | fuel + 1, base =>
    if states[base]?.any (·.combineDone) then slideWindow states fuel (base + 1) else base

/-- The locked section of `control_tick`. -/
def controlTick (env : HostEnv) (h : Host) (now : ℕ) (ts : U64) : Host :=
  if h.running then
    let pulls := needPull h now
    let states := updateTokens h.tokenStates pulls fun st => { st with pullInflight := true }
    let base := slideWindow states (env.numTokens - h.windowBase) h.windowBase
    let received := h.receivedCombines + (base - h.windowBase)
    let finished := !h.finishEnqueued && decide (env.numTokens ≤ received)
    { h with
      tokenStates := states
      windowBase := base
      receivedCombines := received
      finishEnqueued := h.finishEnqueued || finished
      control := .pulling pulls (decide (h.windowBase < base))
        (if finished then some (hostFinishMsg env ts) else none) }
  else h

/-- The unlocked rest of `control_tick` and of the admission, one push at a time. -/
def controlPush (g : Fin N) (env : HostEnv) (h : Host) (ts : U64) :
    Option (Host × List (Event N)) :=
  match h.control with
  | .pulling (i::pulls) moved fin =>
    let h := { h with control := .pulling pulls moved fin }
    match env.workload[i]? with
    | none => some (h,[])
    | some token => some (pushSend g h (combinePullMsg env token i ts))
  | .pulling [] true fin => some (tryAdmitRawTokens env h fin,[])
  | .pulling [] false fin => some ({ h with control := .admitted [] fin },[])
  | .admitted (i::tasks) fin =>
    some (pushCompute { h with control := .admitted tasks fin } (.localAttention i))
  | .admitted [] (some m) => some (pushSend g { h with control := .admitted [] none } m)
  | .admitted [] none => none

/-- The compute part of the loop is over: a thread of its own looks at `running` again. -/
def leaveCompute (env : HostEnv) (h : Host) : Host :=
  { h with
    computing := .top
    turn := if env.mode = .allCombined then .drain 64 else h.turn }

/-- `process_compute_task` up to the push of the message it made. -/
def processComputeTask (env : HostEnv) (h : Host) (ts : U64) : ComputeTask → Host
  | .localAttention i =>
    match env.workload[i]? with
    | none => leaveCompute env h
    | some token =>
      { h with
        tokenStates := updateTokens h.tokenStates [i] fun st =>
          { st with attentionDone := true, dispatchEnqueued := true }
        computing := .pushing (dispatchTokenMsg token i ts) }
  | .expertMlp input => { h with computing := .pushing (expertResultMsg env input ts) }

/-- One step of `compute_loop`, or of the compute part of `all_combined_loop`. -/
def computeStep (g : Fin N) (env : HostEnv) (h : Host) (ts : U64) :
    Option (Host × List (Event N)) :=
  match h.computing with
  | .top =>
    if env.mode = .allCombined then
      match h.computeQueue.items with
      | [] => some (leaveCompute env h,[])
      | t::rest => some ({ h with
          computeQueue := { h.computeQueue with items := rest }, computing := .task t },[])
    else some ({ h with computing := if h.running then .popping else .exited },[])
  | .popping =>
    match h.computeQueue.items with
    | [] => if h.computeQueue.closed then some ({ h with computing := .exited },[]) else none
    | t::rest => some ({ h with
        computeQueue := { h.computeQueue with items := rest }, computing := .task t },[])
  | .task t =>
    if h.running then some (processComputeTask env h ts t,[]) else some (leaveCompute env h,[])
  | .pushing m => some (pushSend g (leaveCompute env h) m)
  | .exited => none

/-- One step of `send_loop`, or of `drain_send_queue`, that is not inside `sr_write`. -/
def sendStep (env : HostEnv) (h : Host) : Option Host :=
  match h.sending with
  | .top =>
    if env.mode = .fourLoops then
      some { h with sending := if h.running then .popping else .exited }
    else
      match h.turn, h.sendQueue.items with
      | .drain (left + 1), m::rest =>
        if h.running then some { h with
          sendQueue := { h.sendQueue with items := rest }
          sending := .writing m
          turn := .drain left }
        else some { h with turn := .read }
      | .drain _, _ => some { h with turn := .read }
      | _, _ => none
  | .popping =>
    match h.sendQueue.items with
    | [] => if h.sendQueue.closed then some { h with sending := .exited } else none
    | m::rest => some { h with
        sendQueue := { h.sendQueue with items := rest }, sending := .writing m }
  | _ => none

/-- Back to the head of the loop that reads. -/
def leaveRead (env : HostEnv) (h : Host) : Host :=
  match env.mode with
  | .fourLoops => { h with reading := .top }
  | .ioCombined =>
    { h with reading := .top, turn := if h.running then .drain 64 else .exited }
  | .allCombined =>
    { h with reading := .top, turn := if h.running then .control false else .exited }

/-- The read failed or FINISH arrived: the loop is left. -/
def exitRead (env : HostEnv) (h : Host) : Host :=
  { h with
    reading := .exited
    turn := if env.mode = .fourLoops then h.turn else .exited }

/-- `static_cast<int>(header.global_idx)`, when it passes the check against
`static_cast<int>(state.token_states.size())`. -/
def tokenIndexOf (h : Host) (globalIdx : U64) : Option ℕ :=
  let idx := (globalIdx.setWidth 32).toInt
  if 0 ≤ idx ∧ idx < int32 h.tokenStates.length then some idx.toNat else none

def updateToken (h : Host) (globalIdx : U64) (f : TokenWindowState → TokenWindowState) : Host :=
  match tokenIndexOf h globalIdx with
  | none => h
  | some i => { h with tokenStates := updateTokens h.tokenStates [i] f }

/-- `handle_incoming_message`, with whether the loop goes on. -/
def handleIncomingMessage (h : Host) (m : Msg) (now : ℕ) : Host × List (Event N) × Bool :=
  match m.header.kind with
  | some .ack =>
    (updateToken h m.header.globalIdx fun st => { st with dispatchAcked := true },[],true)
  | some .expertInput =>
    let r := pushCompute h (.expertMlp m)
    (r.1,r.2,true)
  | some .notReady =>
    (updateToken h m.header.globalIdx fun st =>
      { st with
        pullInflight := false
        pullAttempts := st.pullAttempts + 1
        nextPullTime := now + 10000000 },[],true)
  | some .combineResult =>
    (updateToken h m.header.globalIdx fun st =>
      { st with combineDone := true, pullInflight := false, combinePayload := m.payload },[],true)
  | some .finish => (shutdownRuntime h,[],false)
  | _ => (h,[.rejected .ignoredByHost],true)

/-- One step of the reading part that is not inside `sr_read`; in the combined loops
`sr_read_for` may time out. -/
def readStep (env : HostEnv) (h : Host) (now : ℕ) : Option (Host × List (Event N)) :=
  match h.reading with
  | .top =>
    if env.mode = .fourLoops then
      some ({ h with reading := if h.running then .reading else .exited },[])
    else some ({ h with reading := .reading },[])
  | .reading => if env.mode = .fourLoops then none else some (leaveRead env h,[])
  | .got m =>
    let r := handleIncomingMessage h m now
    some (if r.2.2 then leaveRead env r.1 else exitRead env r.1,r.2.1)
  | .exited => none

/-- Which parts of the loops may move: in the combined modes one thread runs several of
them in turn. -/
def Host.mayControl (env : HostEnv) (h : Host) : Bool :=
  match env.mode, h.turn with
  | .allCombined, .control _ => true
  | .allCombined, _ => false
  | _, _ => true

def Host.mayCompute (env : HostEnv) (h : Host) : Bool :=
  match env.mode, h.turn with
  | .allCombined, .compute => true
  | .allCombined, _ => false
  | _, _ => true

def Host.maySend (env : HostEnv) (h : Host) : Bool :=
  match env.mode, h.turn with
  | .fourLoops, _ => true
  | _, .drain _ => true
  | _, _ => false

def Host.mayRead (env : HostEnv) (h : Host) : Bool :=
  match env.mode, h.turn with
  | .fourLoops, _ => true
  | _, .read => true
  | _, _ => false

inductive HostAction
  | tick (now : ℕ) (ts : U64)
  | push (ts : U64)
  | compute (ts : U64)
  | send
  | read (now : ℕ)

/-- A control tick, and in `all_combined_loop` the way on to the compute part after it. -/
def tickStep (env : HostEnv) (h : Host) (now : ℕ) (ts : U64) : Option Host :=
  if h.control.idle then
    match env.mode, h.turn with
    | .allCombined, .control false =>
      some { controlTick env h now ts with turn := .control true }
    | .allCombined, .control true => some { h with turn := .compute }
    | _, _ => some (controlTick env h now ts)
  else none

def hostStep (g : Fin N) (env : HostEnv) (h : Host) : HostAction → Option (Host × List (Event N))
  | .tick now ts => if h.mayControl env then (tickStep env h now ts).map (·,[]) else none
  | .push ts => if h.mayControl env then controlPush g env h ts else none
  | .compute ts => if h.mayCompute env then computeStep g env h ts else none
  | .send => if h.maySend env then (sendStep env h).map (·,[]) else none
  | .read now => if h.mayRead env then readStep env h now else none

inductive HostMove (g : Fin N) (env : HostEnv) (h : Host) :
    HostAction → Host → List (Event N) → Prop
  | tick {now ts v} : h.mayControl env = true → tickStep env h now ts = some v →
      HostMove g env h (.tick now ts) v []
  | push {ts v ev} : h.mayControl env = true → controlPush g env h ts = some (v,ev) →
      HostMove g env h (.push ts) v ev
  | compute {ts v ev} : h.mayCompute env = true → computeStep g env h ts = some (v,ev) →
      HostMove g env h (.compute ts) v ev
  | send {v} : h.maySend env = true → sendStep env h = some v → HostMove g env h .send v []
  | read {now v ev} : h.mayRead env = true → readStep env h now = some (v,ev) →
      HostMove g env h (.read now) v ev

theorem hostStep_move {g : Fin N} {env : HostEnv} {h v : Host} {a : HostAction}
    {ev : List (Event N)} (hs : hostStep g env h a = some (v,ev)) : HostMove g env h a v ev := by
  cases a with
  | tick now ts =>
    simp only [hostStep] at hs
    split_ifs at hs with hmay
    obtain ⟨w,hw,heq⟩ := Option.map_eq_some_iff.mp hs
    cases heq
    exact .tick hmay hw
  | push ts =>
    simp only [hostStep] at hs
    split_ifs at hs with hmay
    exact .push hmay hs
  | compute ts =>
    simp only [hostStep] at hs
    split_ifs at hs with hmay
    exact .compute hmay hs
  | send =>
    simp only [hostStep] at hs
    split_ifs at hs with hmay
    obtain ⟨w,hw,heq⟩ := Option.map_eq_some_iff.mp hs
    cases heq
    exact .send hmay hw
  | read now =>
    simp only [hostStep] at hs
    split_ifs at hs with hmay
    exact .read hmay hs

/-- `process_out_msg` once `sr_write` has returned true. -/
def wroteMsg (h : Host) : Host := { h with sending := .top }

/-- `process_out_msg` when `sr_write` fails. -/
def writeFailed (env : HostEnv) (h : Host) : Host :=
  { shutdownRuntime h with
    sending := if env.mode = .fourLoops then .exited else .top }

def readFailed (env : HostEnv) (h : Host) : Host := exitRead env (shutdownRuntime h)

end INA2A

import INA2A.Lib.OrderedMap
import INA2A.SwitchSteps

/-! Messages for different keys do not interfere: `combine_queue` as the ordered map it is, and
the three handlers on it from the arrival of a message to their return. -/
namespace INA2A

open ByteBuffers BitWords EventMachine OrderedMap

variable {N : ℕ}

def CombineKey.lt (key other : CombineKey) : Bool :=
  if key.runId ≠ other.runId then decide (key.runId < other.runId)
  else if key.microbatchId ≠ other.microbatchId then
    decide (key.microbatchId < other.microbatchId)
  else if key.tokenId ≠ other.tokenId then decide (key.tokenId < other.tokenId)
  else if key.originRank ≠ other.originRank then decide (key.originRank < other.originRank)
  else decide (key.globalIdx < other.globalIdx)

theorem CombineKey.lt_ordersBy : OrdersBy CombineKey.lt fun key =>
    (key.runId,key.microbatchId,key.tokenId,key.originRank,key.globalIdx) :=
  ((((ordersBy_field globalIdx).firstBy originRank).firstBy tokenId).firstBy
    microbatchId).firstBy runId

theorem CombineKey.lt_strictTotal : StrictTotal CombineKey.lt := by
  apply CombineKey.lt_ordersBy.strictTotal
  intro a b h
  cases a
  cases b
  simp_all

instance : Std.TransCmp (cmpOf CombineKey.lt) := CombineKey.lt_strictTotal.transCmp
instance : Std.LawfulEqCmp (cmpOf CombineKey.lt) := CombineKey.lt_strictTotal.lawfulEqCmp

abbrev CombineMap := Std.ExtTreeMap CombineKey QueueSlot (cmpOf CombineKey.lt)

/-- The map seen as a function of the key. -/
def CombineMap.toQueue (m : CombineMap) : CombineQueue := fun key => m[key]?

@[simp] theorem CombineMap.toQueue_insert (m : CombineMap) (key : CombineKey) (slot : QueueSlot) :
    CombineMap.toQueue (m.insert key slot) = Function.update m.toQueue key (some slot) := by
  funext j
  by_cases hj : key = j
  · subst hj
    simp [toQueue]
  · have hcmp := mt (cmpOf_eq_iff CombineKey.lt_strictTotal).mp hj
    rw [Function.update_of_ne (Ne.symm hj),toQueue,Std.ExtTreeMap.getElem?_insert,if_neg hcmp,
      toQueue]

@[simp] theorem CombineMap.toQueue_erase (m : CombineMap) (key : CombineKey) :
    CombineMap.toQueue (m.erase key) = Function.update m.toQueue key none := by
  funext j
  by_cases hj : key = j
  · subst hj
    simp [toQueue]
  · have hcmp := mt (cmpOf_eq_iff CombineKey.lt_strictTotal).mp hj
    rw [Function.update_of_ne (Ne.symm hj),toQueue,Std.ExtTreeMap.getElem?_erase,if_neg hcmp,
      toQueue]

/-- What the handlers read and write of `SwitchState`. -/
structure SwitchState (N : ℕ) where
  hosts : Fin N → Bool
  /-- `host->conn` is not null. -/
  conn : Fin N → Bool
  combineQueue : CombineMap

/-- A message about a token, with what the environment decides while it is handled:
the outcome and the timestamp of the `i`-th message that its handler sends. -/
structure Arrival (N : ℕ) where
  host : Fin N
  msg : Msg
  aboutToken : msg.header.kind ∈
    [some MsgType.dispatchToken,some MsgType.expertResult,some MsgType.combinePullReq]
  written : ℕ → Bool
  timestampNs : ℕ → U64

def Arrival.key (a : Arrival N) : CombineKey := makeKey a.msg.header

/-- One call of `send_to_host`, with what it returned. -/
structure Send (N : ℕ) where
  target : Fin N
  msg : Msg
  ok : Bool

def sendToHost (conn : Fin N → Bool) (a : Arrival N) (i : ℕ) (target : Fin N) (msg : Msg) : Send N where
  target := target
  msg := msg
  ok := conn target && a.written i

def expertResultOn (a : Arrival N) (m : CombineMap) : CombineMap × List (Send N) :=
  match m[a.key]? with
  | none => (m,[])
  | some slot =>
    if a.msg.payload.size ≠ slot.payloadLen.toNat then (m,[])
    else if 64 ≤ a.msg.header.srcRank.toNat then (m,[])
    else if slot.pendingBitmap &&& bit 64 a.msg.header.srcRank.toNat = 0 then (m,[])
    else (m.insert a.key (slot.aggregate a.msg.header.srcRank.toNat a.msg.payload),[])

/-- `find_host` for every selected expert; those without a host are skipped. -/
def findTargets (hosts : Fin N → Bool) (ids : List ℕ) : List (Fin N) :=
  ids.filterMap fun id =>
    if h : id < N then if hosts ⟨id,h⟩ then some ⟨id,h⟩ else none else none

/-- The branch of the send loop for a send that failed. -/
def clearTargetOn (key : CombineKey) (rank : ℕ) (m : CombineMap) : CombineMap :=
  match m[key]? with
  | none => m
  | some slot => m.insert key (slot.clearPending rank)

def sendInputs (conn : Fin N → Bool) (a : Arrival N) (i : ℕ) :
    List (Fin N) → CombineMap → CombineMap × List (Send N)
  | [], m => (m,[])
  | target::rest, m =>
    let sent := sendToHost conn a i target (expertInputMsg a.msg target (a.timestampNs i))
    let m := if sent.ok then m else clearTargetOn a.key target m
    let r := sendInputs conn a (i + 1) rest m
    (r.1,sent::r.2)

def dispatchTokenOn (hosts conn : Fin N → Bool) (a : Arrival N) (m : CombineMap) :
    CombineMap × List (Send N) :=
  if a.msg.payload.size ≠ a.msg.header.payloadLen.toNat then (m,[])
  else
    let targets := findTargets hosts (decodeExpertIds a.msg.header.expertBitmap N)
    let m := m.insert a.key (newSlot a.msg.header (expectedBitmap targets))
    let r := sendInputs conn a 0 targets m
    let ack := sendToHost conn a targets.length a.host
      (ackMsg a.msg.header (a.timestampNs targets.length))
    (r.1,r.2 ++ [ack])

def combinePullReqOn (conn : Fin N → Bool) (a : Arrival N) (m : CombineMap) :
    CombineMap × List (Send N) :=
  match m[a.key]? with
  | some slot =>
    if slot.ready then
      (m.erase a.key,
        [sendToHost conn a 0 a.host (combineResultMsg a.msg.header slot (a.timestampNs 0))])
    else (m,[sendToHost conn a 0 a.host (notReadyMsg a.msg.header (a.timestampNs 0))])
  | none => (m,[sendToHost conn a 0 a.host (notReadyMsg a.msg.header (a.timestampNs 0))])

def handleOn (hosts conn : Fin N → Bool) (a : Arrival N) (m : CombineMap) :
    CombineMap × List (Send N) :=
  match a.msg.header.kind with
  | some .dispatchToken => dispatchTokenOn hosts conn a m
  | some .expertResult => expertResultOn a m
  | some .combinePullReq => combinePullReqOn conn a m
  | _ => (m,[])

/-- A message handled to the end: the state it leaves and the messages it causes. -/
def handle (s : SwitchState N) (a : Arrival N) : SwitchState N × List (Send N) :=
  let r := handleOn s.hosts s.conn a s.combineQueue
  ({ s with combineQueue := r.1 },r.2)

theorem clearTargetOn_toQueue (key : CombineKey) (rank : ℕ) (m : CombineMap) :
    (clearTargetOn key rank m).toQueue = clearTarget m.toQueue key rank := by
  unfold clearTargetOn clearTarget
  change _ = match m[key]? with
    | none => m.toQueue
    | some slot => Function.update m.toQueue key (some (slot.clearPending rank))
  cases m[key]? with
  | none => rfl
  | some slot => exact CombineMap.toQueue_insert m key _

theorem expertResultOn_toQueue (a : Arrival N) (m : CombineMap) :
    (expertResultOn a m).1.toQueue = match handleExpertResult m.toQueue a.msg with
      | .error _ => m.toQueue
      | .ok queue => queue := by
  cases hentry : m[a.key]? with
  | none =>
    have hqueue : m.toQueue (makeKey a.msg.header) = none := hentry
    simp only [expertResultOn,handleExpertResult,hentry,hqueue]
  | some slot =>
    have hqueue : m.toQueue (makeKey a.msg.header) = some slot := hentry
    simp only [expertResultOn,handleExpertResult,hentry,hqueue]
    split_ifs
    · rfl
    · rfl
    · rfl
    · exact CombineMap.toQueue_insert m a.key _

theorem expertResultOn_sends (a : Arrival N) (m : CombineMap) : (expertResultOn a m).2 = [] := by
  unfold expertResultOn
  split
  · rfl
  · split_ifs <;> rfl

theorem combinePullReqOn_eq (conn : Fin N → Bool) (a : Arrival N) (m : CombineMap) :
    (combinePullReqOn conn a m).1.toQueue =
        (handleCombinePullReq (N:=N) m.toQueue a.msg.header (a.timestampNs 0)).1 ∧
      (combinePullReqOn conn a m).2 = [sendToHost conn a 0 a.host
        (handleCombinePullReq (N:=N) m.toQueue a.msg.header (a.timestampNs 0)).2.1] := by
  cases hentry : m[a.key]? with
  | none =>
    have hqueue : m.toQueue (makeKey a.msg.header) = none := hentry
    simp only [combinePullReqOn,handleCombinePullReq,hentry,hqueue,and_self]
  | some slot =>
    have hqueue : m.toQueue (makeKey a.msg.header) = some slot := hentry
    by_cases hready : slot.ready = true
    · simp only [combinePullReqOn,handleCombinePullReq,hentry,hqueue,if_pos hready]
      exact ⟨CombineMap.toQueue_erase m a.key,trivial⟩
    · simp only [combinePullReqOn,handleCombinePullReq,hentry,hqueue,if_neg hready,and_self]

variable {hosts conn : Fin N → Bool} {a b : Arrival N}

theorem expertResultOn_actsAt : ActsAt a.key (expertResultOn a) := by
  apply ActsAt.lookup
  intro e
  cases e with
  | none =>
    refine ⟨_,ActsAt.pure _ [],?_⟩
    intro m hm
    simp only [expertResultOn,hm]
  | some slot =>
    by_cases hsize : a.msg.payload.size ≠ slot.payloadLen.toNat
    · refine ⟨_,ActsAt.pure _ [],?_⟩
      intro m hm
      simp only [expertResultOn,hm,if_pos hsize]
    by_cases hrank : 64 ≤ a.msg.header.srcRank.toNat
    · refine ⟨_,ActsAt.pure _ [],?_⟩
      intro m hm
      simp only [expertResultOn,hm,if_neg hsize,if_pos hrank]
    by_cases hpending : slot.pendingBitmap &&& bit 64 a.msg.header.srcRank.toNat = 0
    · refine ⟨_,ActsAt.pure _ [],?_⟩
      intro m hm
      simp only [expertResultOn,hm,if_neg hsize,if_neg hrank,if_pos hpending]
    · refine ⟨_,ActsAt.insert _ (slot.aggregate a.msg.header.srcRank.toNat a.msg.payload) [],?_⟩
      intro m hm
      simp only [expertResultOn,hm,if_neg hsize,if_neg hrank,if_neg hpending]

theorem combinePullReqOn_actsAt : ActsAt a.key (combinePullReqOn conn a) := by
  let notReady := sendToHost conn a 0 a.host (notReadyMsg a.msg.header (a.timestampNs 0))
  apply ActsAt.lookup
  intro e
  cases e with
  | none =>
    refine ⟨_,ActsAt.pure _ [notReady],?_⟩
    intro m hm
    simp only [combinePullReqOn,hm,notReady]
  | some slot =>
    by_cases hready : slot.ready = true
    · refine ⟨_,ActsAt.erase _ [sendToHost conn a 0 a.host
        (combineResultMsg a.msg.header slot (a.timestampNs 0))],?_⟩
      intro m hm
      simp only [combinePullReqOn,hm,if_pos hready]
    · refine ⟨_,ActsAt.pure _ [notReady],?_⟩
      intro m hm
      simp only [combinePullReqOn,hm,if_neg hready,notReady]

theorem clearTargetOn_actsAt (key : CombineKey) (rank : ℕ) :
    ActsAt key fun m => (clearTargetOn key rank m,()) := by
  apply ActsAt.lookup
  intro e
  cases e with
  | none =>
    refine ⟨_,ActsAt.pure _ (),?_⟩
    intro m hm
    simp only [clearTargetOn,hm]
  | some slot =>
    refine ⟨_,ActsAt.insert _ (slot.clearPending rank) (),?_⟩
    intro m hm
    simp only [clearTargetOn,hm]

theorem sendInputs_actsAt (targets : List (Fin N)) (i : ℕ) :
    ActsAt a.key (sendInputs conn a i targets) := by
  induction targets generalizing i with
  | nil => exact ActsAt.pure _ _
  | cons target rest ih =>
    have hrest := (ih (i + 1)).map fun sends =>
      sendToHost conn a i target (expertInputMsg a.msg target (a.timestampNs i))::sends
    cases hok : (sendToHost conn a i target
        (expertInputMsg a.msg target (a.timestampNs i))).ok with
    | true =>
      simp only [sendInputs,hok]
      exact hrest
    | false =>
      simp only [sendInputs,hok]
      exact (clearTargetOn_actsAt a.key target).bind fun _ => hrest

theorem dispatchTokenOn_actsAt : ActsAt a.key (dispatchTokenOn hosts conn a) := by
  unfold dispatchTokenOn
  split_ifs
  · exact ActsAt.pure _ _
  · let targets := findTargets hosts (decodeExpertIds a.msg.header.expertBitmap N)
    let ack := sendToHost conn a targets.length a.host
      (ackMsg a.msg.header (a.timestampNs targets.length))
    have hsends : ActsAt a.key (sendInputs conn a 0 targets) := sendInputs_actsAt targets 0
    have hcreate : ActsAt a.key fun m : CombineMap =>
        (m.insert a.key (newSlot a.msg.header (expectedBitmap targets)),()) :=
      ActsAt.insert _ _ _
    exact (hcreate.bind fun _ => hsends).map fun sends => sends ++ [ack]

theorem handleOn_actsAt : ActsAt a.key (handleOn hosts conn a) := by
  unfold handleOn
  split
  · exact dispatchTokenOn_actsAt
  · exact expertResultOn_actsAt
  · exact combinePullReqOn_actsAt
  · exact ActsAt.pure _ _

def Event.sent : Event N → Option (Fin N × Msg)
  | .toHost g m => some (g,m)
  | _ => none

/-- The switch `s` while only the reader of `h` moves. -/
def Switch.alone (s : Switch N) (h : Fin N) (p : ReaderPos N) (queue : CombineQueue) : Switch N :=
  { s.setReader h p with combineQueue := queue }

variable {s : Switch N} {h : Fin N} {p : ReaderPos N} {queue : CombineQueue}

theorem Switch.alone_self : s.alone h (s.reader h) s.combineQueue = s := by
  simp [Switch.alone,Switch.setReader]

@[simp] theorem Switch.alone_reader : (s.alone h p queue).reader h = p := by
  simp [Switch.alone]

@[simp] theorem Switch.alone_setReader (q : ReaderPos N) :
    (s.alone h p queue).setReader h q = s.alone h q queue := by
  simp [Switch.alone,Switch.setReader]

abbrev ReaderMoves (h : Fin N) : Switch N → List (Event N) → Switch N → Prop :=
  Moves fun s ev s' => ∃ i, readerStep s h i = some (s',ev)

theorem step_alone (hquiet : ∀ r, s.writing r = none) {s' : Switch N} {ev : List (Event N)} {ts : U64}
    (hlocal : readerLocal (s.alone h p queue) h ts = some (s',ev)) :
    ReaderMoves h (s.alone h p queue) ev s' := by
  apply Moves.single
  refine ⟨.go ts,?_⟩
  simp only [readerStep]
  rwa [if_pos]
  exact hquiet h

theorem looking_alone (hquiet : ∀ r, s.writing r = none) (queue : CombineQueue) (m : Msg)
    (ids : List ℕ) (targets : List (Fin N)) :
    ∃ ev, ReaderMoves h (s.alone h (.looking m ids targets) queue) ev
        (s.alone h (.looking m [] (targets ++ findTargets s.hosts ids)) queue) ∧
      ev.filterMap Event.sent = [] := by
  induction ids generalizing targets with
  | nil =>
    refine ⟨[],?_,rfl⟩
    rw [findTargets,List.filterMap_nil,List.append_nil]
    exact .refl
  | cons id ids ih =>
    cases hfound : findHost s id with
    | none =>
      obtain ⟨ev,hmoves,hev⟩ := ih targets
      have hskip : findTargets s.hosts (id::ids) = findTargets s.hosts ids :=
        List.filterMap_cons_none hfound
      have hstep : readerLocal (s.alone h (.looking m (id::ids) targets) queue) h 0 =
          some (s.alone h (.looking m ids targets) queue,[.rejected .noConnectedHost]) := by
        change findHost (s.alone h (.looking m (id::ids) targets) queue) id = none at hfound
        simp only [readerLocal,Switch.alone_reader,hfound,Switch.alone_setReader]
      refine ⟨[.rejected .noConnectedHost] ++ ev,?_,?_⟩
      · rw [hskip]
        exact (step_alone hquiet hstep).trans hmoves
      · rw [List.filterMap_append,hev]
        rfl
    | some g =>
      obtain ⟨ev,hmoves,hev⟩ := ih (targets ++ [g])
      have hfind : findTargets s.hosts (id::ids) = g::findTargets s.hosts ids :=
        List.filterMap_cons_some hfound
      have hstep : readerLocal (s.alone h (.looking m (id::ids) targets) queue) h 0 =
          some (s.alone h (.looking m ids (targets ++ [g])) queue,[]) := by
        change findHost (s.alone h (.looking m (id::ids) targets) queue) id = some g at hfound
        simp only [readerLocal,Switch.alone_reader,hfound,Switch.alone_setReader]
      refine ⟨[] ++ ev,?_,hev⟩
      rw [hfind,List.append_cons]
      exact (step_alone hquiet hstep).trans hmoves

theorem readerLocal_send {s : Switch N} {h g : Fin N} {ts : U64}
    (htarget : sendTarget h (s.reader h) = some g) :
    readerLocal s h ts = enterSend s h g ts := by
  unfold readerLocal
  cases hp : s.reader h with
  | dispatching m targets =>
    rw [hp] at htarget
    dsimp only
    rw [htarget]
  | replying response =>
    rw [hp] at htarget
    dsimp only
    rw [htarget]
  | broadcasting runId targets =>
    cases targets with
    | nil => simp [hp,sendTarget] at htarget
    | cons g' rest =>
      rw [hp] at htarget
      dsimp only
      rw [htarget]
  | _ => simp [hp,sendTarget] at htarget

theorem send_alone (hquiet : ∀ r, s.writing r = none) {g : Fin N}
    (htarget : sendTarget h p = some g) (queue : CombineQueue) (ts : U64) (ok : Bool) :
    ∃ ev, ReaderMoves h (s.alone h p queue) ev
        (s.alone h (afterSend (s.conn g && ok) p) queue) ∧
      ev.filterMap Event.sent = if s.conn g && ok then [(g,sendMsg ts p)] else [] := by
  have hsilent : (afterSendEvents p).filterMap Event.sent = [] := by
    cases p with
    | dispatching m targets => cases targets <;> rfl
    | _ => rfl
  have hlocal : readerLocal (s.alone h p queue) h ts = enterSend (s.alone h p queue) h g ts := by
    apply readerLocal_send
    rwa [Switch.alone_reader]
  cases hconn : s.conn g with
  | false =>
    have hstep : readerLocal (s.alone h p queue) h ts =
        some (s.alone h (afterSend false p) queue,afterSendEvents p) := by
      rw [hlocal,enterSend,if_pos (by exact hconn)]
      simp only [Switch.alone_reader,Switch.alone_setReader]
    exact ⟨afterSendEvents p,step_alone hquiet hstep,hsilent⟩
  | true =>
    let t : Switch N :=
      { s.alone h p queue with writing := Function.update s.writing h (some ts) }
    have hfree : writeMutexFree (s.alone h p queue) g := fun r => .inl (hquiet r)
    have henter : readerLocal (s.alone h p queue) h ts = some (t,[.entersWrite g]) := by
      rw [hlocal,enterSend,if_neg (by rw [show (s.alone h p queue).conn g = true from hconn]; simp),
        if_pos hfree]
      rfl
    have hreader : t.reader h = p := by simp [t,Switch.alone]
    have hwriting : t.writing h = some ts := Function.update_self _ _ _
    have hback : Function.update t.writing h none = s.writing := by
      funext r
      by_cases hr : r = h
      · subst hr
        rw [Function.update_self,hquiet]
      · rw [Function.update_of_ne hr]
        exact Function.update_of_ne hr _ _
    have hfinish : readerStep t h (.sent ok) = some (s.alone h (afterSend ok p) queue,
        (if ok then [.toHost g (sendMsg ts p)] else []) ++ afterSendEvents p) := by
      simp only [readerStep,hwriting,hreader,htarget,finishSend,hback]
      simp [t,Switch.alone,Switch.setReader]
    refine ⟨[.entersWrite g] ++ ((if ok then [.toHost g (sendMsg ts p)] else []) ++
      afterSendEvents p),(step_alone hquiet henter).trans (.single ⟨_,hfinish⟩),?_⟩
    rw [List.filterMap_append,List.filterMap_append,hsilent]
    cases ok <;> rfl

def delivered (sends : List (Send N)) : List (Fin N × Msg) :=
  (sends.filter Send.ok).map fun x => (x.target,x.msg)

theorem sendInputs_alone (hquiet : ∀ r, s.writing r = none) (a : Arrival N)
    (targets : List (Fin N)) (i : ℕ) (m : CombineMap) :
    ∃ ev, ReaderMoves a.host (s.alone a.host (.dispatching a.msg targets) m.toQueue) ev
        (s.alone a.host (.dispatching a.msg []) (sendInputs s.conn a i targets m).1.toQueue) ∧
      ev.filterMap Event.sent = delivered (sendInputs s.conn a i targets m).2 := by
  induction targets generalizing i m with
  | nil => exact ⟨[],.refl,rfl⟩
  | cons target rest ih =>
    have hsend := send_alone (h:=a.host) (p:=.dispatching a.msg (target::rest)) hquiet rfl m.toQueue
      (a.timestampNs i) (a.written i)
    cases hok : s.conn target && a.written i with
    | true =>
      rw [hok] at hsend
      obtain ⟨ev,hmoves,hev⟩ := hsend
      obtain ⟨ev',hmoves',hev'⟩ := ih (i + 1) m
      have hinputs : sendInputs s.conn a i (target::rest) m =
          ((sendInputs s.conn a (i + 1) rest m).1,
            ⟨target,expertInputMsg a.msg target (a.timestampNs i),true⟩::
              (sendInputs s.conn a (i + 1) rest m).2) := by
        simp [sendInputs,sendToHost,hok]
      rw [hinputs]
      refine ⟨ev ++ ev',hmoves.trans hmoves',?_⟩
      rw [List.filterMap_append,hev,hev']
      rfl
    | false =>
      rw [hok] at hsend
      obtain ⟨ev,hmoves,hev⟩ := hsend
      obtain ⟨ev',hmoves',hev'⟩ := ih (i + 1) (clearTargetOn a.key target m)
      have hinputs : sendInputs s.conn a i (target::rest) m =
          ((sendInputs s.conn a (i + 1) rest (clearTargetOn a.key target m)).1,
            ⟨target,expertInputMsg a.msg target (a.timestampNs i),false⟩::
              (sendInputs s.conn a (i + 1) rest (clearTargetOn a.key target m)).2) := by
        simp [sendInputs,sendToHost,hok]
      have hclear : readerLocal (s.alone a.host (.clearing a.msg target rest) m.toQueue) a.host 0 =
          some (s.alone a.host (.dispatching a.msg rest) (clearTargetOn a.key target m).toQueue,
            clearedEvents m.toQueue a.key target) := by
        simp only [readerLocal,Switch.alone_reader,Switch.alone_setReader,clearTargetOn_toQueue]
        rfl
      have hsilent : (clearedEvents (N:=N) m.toQueue a.key target).filterMap Event.sent = [] := by
        unfold clearedEvents
        split
        · rfl
        · split_ifs <;> rfl
      rw [hinputs]
      refine ⟨ev ++ (clearedEvents m.toQueue a.key target ++ ev'),
        hmoves.trans ((step_alone hquiet hclear).trans hmoves'),?_⟩
      rw [List.filterMap_append,List.filterMap_append,hev,hsilent,hev']
      rfl

theorem delivered_append (l l' : List (Send N)) :
    delivered (l ++ l') = delivered l ++ delivered l' := by simp [delivered]

theorem delivered_sendToHost (conn : Fin N → Bool) (a : Arrival N) (i : ℕ) (g : Fin N) (m : Msg) :
    delivered [sendToHost conn a i g m] = if conn g && a.written i then [(g,m)] else [] := by
  cases hok : conn g && a.written i <;> simp [delivered,sendToHost,hok]

theorem dispatch_alone (hquiet : ∀ r, s.writing r = none) (a : Arrival N) (m : CombineMap)
    (hsize : a.msg.payload.size = a.msg.header.payloadLen.toNat) :
    ∃ ev, ReaderMoves a.host
        (s.alone a.host (.looking a.msg (decodeExpertIds a.msg.header.expertBitmap N) []) m.toQueue)
        ev (s.alone a.host .top (dispatchTokenOn s.hosts s.conn a m).1.toQueue) ∧
      ev.filterMap Event.sent = delivered (dispatchTokenOn s.hosts s.conn a m).2 := by
  let targets := findTargets s.hosts (decodeExpertIds a.msg.header.expertBitmap N)
  let created : CombineMap := m.insert a.key (newSlot a.msg.header (expectedBitmap targets))
  obtain ⟨ev₁,hlook,hev₁⟩ := looking_alone (h:=a.host) hquiet m.toQueue a.msg
    (decodeExpertIds a.msg.header.expertBitmap N) []
  let ev₂ := (createSlot (s.alone a.host (.looking a.msg [] targets) m.toQueue) a.host a.msg targets).2
  have hcreate : readerLocal (s.alone a.host (.looking a.msg [] targets) m.toQueue) a.host 0 =
      some (s.alone a.host (.dispatching a.msg targets) created.toQueue,ev₂) := by
    have hinsert : created.toQueue = Function.update m.toQueue (makeKey a.msg.header)
      (some (newSlot a.msg.header (expectedBitmap targets))) := CombineMap.toQueue_insert m a.key _
    simp only [readerLocal,Switch.alone_reader,createSlot,Switch.alone_setReader,hinsert,ev₂]
    rfl
  have hev₂ : ev₂.filterMap Event.sent = [] := by
    simp only [ev₂,createSlot]
    split_ifs <;> rfl
  obtain ⟨ev₃,hinputs,hev₃⟩ := sendInputs_alone hquiet a targets 0 created
  obtain ⟨ev₄,hack,hev₄⟩ := send_alone (h:=a.host) (p:=.dispatching a.msg []) hquiet rfl
    (sendInputs s.conn a 0 targets created).1.toQueue (a.timestampNs targets.length)
    (a.written targets.length)
  have hhandled : dispatchTokenOn s.hosts s.conn a m =
      ((sendInputs s.conn a 0 targets created).1,(sendInputs s.conn a 0 targets created).2 ++
        [sendToHost s.conn a targets.length a.host
          (ackMsg a.msg.header (a.timestampNs targets.length))]) := by
    rw [dispatchTokenOn,if_neg (not_not.mpr hsize)]
  rw [hhandled]
  refine ⟨ev₁ ++ (ev₂ ++ (ev₃ ++ ev₄)),
    hlook.trans ((step_alone hquiet hcreate).trans (hinputs.trans hack)),?_⟩
  rw [List.filterMap_append,List.filterMap_append,List.filterMap_append,hev₁,hev₂,hev₃,hev₄,
    delivered_append,delivered_sendToHost]
  rfl

theorem handleOn_alone (hquiet : ∀ r, s.writing r = none) (a : Arrival N) (m : CombineMap) :
    ∃ ev, ReaderMoves a.host (s.alone a.host (.got a.msg) m.toQueue) ev
        (s.alone a.host .top (handleOn s.hosts s.conn a m).1.toQueue) ∧
      ev.filterMap Event.sent = delivered (handleOn s.hosts s.conn a m).2 := by
  have hhandle : readerLocal (s.alone a.host (.got a.msg) m.toQueue) a.host (a.timestampNs 0) =
      some (handleMessage (s.alone a.host (.got a.msg) m.toQueue) a.host a.msg (a.timestampNs 0)) := by
    simp only [readerLocal,Switch.alone_reader]
  have hkind := a.aboutToken
  simp only [List.mem_cons,List.not_mem_nil,or_false] at hkind
  rcases hkind with hkind | hkind | hkind
  · simp only [handleOn,hkind]
    simp only [handleMessage,hkind,Switch.alone_setReader] at hhandle
    by_cases hsize : a.msg.payload.size = a.msg.header.payloadLen.toNat
    · rw [if_neg (not_not.mpr hsize)] at hhandle
      obtain ⟨ev,hmoves,hev⟩ := dispatch_alone hquiet a m hsize
      exact ⟨[] ++ ev,(step_alone hquiet hhandle).trans hmoves,hev⟩
    · rw [if_pos hsize] at hhandle
      rw [dispatchTokenOn,if_pos hsize]
      exact ⟨_,step_alone hquiet hhandle,rfl⟩
  · simp only [handleOn,hkind]
    rw [expertResultOn_toQueue,expertResultOn_sends]
    simp only [handleMessage,hkind,Switch.alone_setReader] at hhandle
    change readerLocal _ _ _ = some (match handleExpertResult m.toQueue a.msg with
      | .error f => _
      | .ok queue => _) at hhandle
    cases hresult : handleExpertResult m.toQueue a.msg with
    | error f =>
      rw [hresult] at hhandle
      exact ⟨_,step_alone hquiet hhandle,rfl⟩
    | ok queue =>
      rw [hresult] at hhandle
      exact ⟨_,step_alone hquiet hhandle,rfl⟩
  · simp only [handleOn,hkind]
    obtain ⟨hmap,hsends⟩ := combinePullReqOn_eq s.conn a m
    rw [hmap,hsends]
    simp only [handleMessage,hkind,Switch.alone_setReader] at hhandle
    let r := handleCombinePullReq (N:=N) m.toQueue a.msg.header (a.timestampNs 0)
    have htake : readerLocal (s.alone a.host (.got a.msg) m.toQueue) a.host (a.timestampNs 0) =
      some (s.alone a.host (.replying r.2.1) r.1,r.2.2) := hhandle
    have hsilent : r.2.2.filterMap Event.sent = [] := by
      simp only [r,handleCombinePullReq]
      split
      · split_ifs <;> rfl
      · rfl
    obtain ⟨ev,hreply,hev⟩ := send_alone (h:=a.host) (p:=.replying r.2.1) hquiet rfl r.1
      (a.timestampNs 0) (a.written 0)
    refine ⟨r.2.2 ++ ev,(step_alone hquiet htake).trans hreply,?_⟩
    rw [List.filterMap_append,hsilent,hev,delivered_sendToHost]
    rfl

/-- Handling a message while no other thread moves: the reader reaches the top of its loop with
what `handleOn` leaves in the queue, having sent what `handleOn` sends. -/
theorem handled_alone (hquiet : ∀ r, s.writing r = none) (a : Arrival N) (m : CombineMap)
    (hqueue : s.combineQueue = m.toQueue) (hgot : s.reader a.host = .got a.msg) :
    ∃ ev, ReaderMoves a.host s ev
        (s.alone a.host .top (handleOn s.hosts s.conn a m).1.toQueue) ∧
      ev.filterMap Event.sent = delivered (handleOn s.hosts s.conn a m).2 := by
  have hstart : s.alone a.host (.got a.msg) m.toQueue = s := by
    rw [← hgot,← hqueue]
    exact Switch.alone_self
  obtain ⟨ev,hmoves,hev⟩ := handleOn_alone hquiet a m
  rw [hstart] at hmoves
  exact ⟨ev,hmoves,hev⟩

def MsgHeader.Apart (header other : MsgHeader) : Prop :=
  header.runId ≠ other.runId ∨ header.microbatchId ≠ other.microbatchId ∨
    header.tokenId ≠ other.tokenId ∨ header.originRank ≠ other.originRank ∨
    header.globalIdx ≠ other.globalIdx

theorem Arrival.key_ne (h : a.msg.header.Apart b.msg.header) : a.key ≠ b.key := by
  intro heq
  simp only [Arrival.key,makeKey,CombineKey.mk.injEq] at heq
  obtain ⟨hrun,hmb,htoken,horigin,hidx⟩ := heq
  rcases h with h | h | h | h | h
  · exact h hrun
  · exact h hmb
  · exact h htoken
  · exact h horigin
  · exact h hidx

/-- Tokens do not interfere at the switch. -/
structure TokensApart (N : ℕ) : Prop where
  ordered : StrictTotal CombineKey.lt
  /-- An entry is found under the keys that are neither less nor greater. -/
  lookup : ∀ (m : CombineMap) (key other : CombineKey) (slot : QueueSlot),
    (m.insert key slot)[other]? =
      if key.lt other = false ∧ other.lt key = false then some slot else m[other]?
  /-- And those are the key itself. -/
  distinct : ∀ key other : CombineKey,
    key.lt other = false ∧ other.lt key = false ↔ key = other
  slot : ∀ (s : SwitchState N) (a b : Arrival N), a.msg.header.Apart b.msg.header →
    (handle s a).1.combineQueue[b.key]? = s.combineQueue[b.key]?
  reply : ∀ (s : SwitchState N) (a b : Arrival N), a.msg.header.Apart b.msg.header →
    (handle (handle s a).1 b).2 = (handle s b).2
  /-- So by symmetry each order gives the replies of either alone. -/
  order : ∀ (s : SwitchState N) (a b : Arrival N), a.msg.header.Apart b.msg.header →
    (handle (handle s a).1 b).1 = (handle (handle s b).1 a).1

theorem tokens_apart (N : ℕ) : TokensApart N where
  ordered := CombineKey.lt_strictTotal
  lookup m key other slot := by
    rw [Std.ExtTreeMap.getElem?_insert]
    have hsame := CombineKey.lt_strictTotal.same_iff (a:=key) (b:=other)
    simp only [cmpOf_eq_iff CombineKey.lt_strictTotal,hsame]
  distinct key other := CombineKey.lt_strictTotal.same_iff
  slot s a b h := handleOn_actsAt.frame _ _ (Arrival.key_ne h).symm
  reply s a b h := handleOn_actsAt.reply_after handleOn_actsAt (Arrival.key_ne h) _
  order s a b h := by
    have ha : ActsAt a.key (handleOn s.hosts s.conn a) := handleOn_actsAt
    have hb : ActsAt b.key (handleOn s.hosts s.conn b) := handleOn_actsAt
    unfold handle
    dsimp only
    rw [ha.commute hb (Arrival.key_ne h)]

end INA2A

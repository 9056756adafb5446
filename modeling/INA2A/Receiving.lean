import INA2A.Wire

/-! The two ways to receive (`transport_softroce.cc`): `sr_read`, which waits for the next
message, and `sr_read_for`, which gives up after a time.  What `ibv_poll_cq` will answer is a
list; a call that is still waiting at its end has no result. -/
namespace INA2A

open ByteBuffers BitWords

def ibvWcRecv : ℕ := 128

structure Completion where
  success : Bool
  opcode : ℕ
  byteLen : ℕ
  /-- What `recv_buf` holds by then. -/
  recvBuf : List Byte

/-- An answer of `ibv_poll_cq`, asked for one completion. -/
inductive Poll
  | error
  | empty
  | completion (wc : Completion)

/-- What a receiving call does that matters for `recv_buf`. -/
inductive Effect
  | posted (ok : Bool)
  | polled (answer : Poll)
  | copied (m : Msg)

structure RecvSide where
  /-- None of `conn`, `recv_buf`, `recv_mr`, `recv_cq` is null. -/
  usable : Bool
  /-- `conn->id` and its queue pair are not null. -/
  qpReady : Bool
  recvPosted : Bool
  recvBuf : List Byte
  polls : List Poll
  /-- Whether the next calls of `ibv_post_recv` succeed. -/
  posts : Stream' Bool
  trace : List Effect

def RecvSide.emit (s : RecvSide) (x : Effect) : RecvSide := { s with trace := s.trace ++ [x] }

def postRecv (s : RecvSide) : Bool × RecvSide :=
  if !s.usable || !s.qpReady then (false,s)
  else
    let ok := s.posts.head
    let s := { s with posts := s.posts.tail }.emit (.posted ok)
    (ok,if ok then { s with recvPosted := true } else s)

/-- `wait_cq`, with the byte count of the completion when it returns true. -/
def waitCq (expected : ℕ) (s : RecvSide) : List Poll → Option (Option ℕ × RecvSide)
  | [] => none
  | .error::polls => some (none,{ s with polls := polls }.emit (.polled .error))
  | .empty::polls => waitCq expected (s.emit (.polled .empty)) polls
  | .completion wc::polls =>
    let s := { s with polls := polls, recvBuf := wc.recvBuf }.emit (.polled (.completion wc))
    if !wc.success then some (none,s)
    else if wc.opcode ≠ expected then some (none,s)
    else some (some wc.byteLen,s)

/-- `sr_read`, with what it delivers when it returns true. -/
def srReadConn (e : ByteOrder) (s : RecvSide) : Option (Option Msg × RecvSide) :=
  if !s.usable then some (none,s)
  else
    let r := if s.recvPosted then (true,s) else postRecv s
    if !r.1 then some (none,r.2)
    else
      match waitCq ibvWcRecv r.2 r.2.polls with
      | none => none
      | some (none,s) => some (none,s)
      | some (some byteLen,s) =>
        let s := { s with recvPosted := false }
        match srReadFrame e byteLen s.recvBuf with
        | .error _ => some (none,s)
        | .ok m =>
          let r := postRecv (s.emit (.copied m))
          some (if r.1 then some m else none,r.2)

inductive SrReadStatus
  | ok (m : Msg)
  | timeout
  | failed

/-- The loop of `sr_read_for`; `clock` is what `steady_clock::now` answers after each empty
poll. -/
def srReadForLoop (e : ByteOrder) (timeout start : ℤ) (s : RecvSide) (clock : Stream' ℤ) :
    List Poll → Option (SrReadStatus × RecvSide)
  | [] => none
  | .error::polls => some (.failed,{ s with polls := polls }.emit (.polled .error))
  | .completion wc::polls =>
    let s := { s with polls := polls, recvBuf := wc.recvBuf }.emit (.polled (.completion wc))
    if !wc.success then some (.failed,s)
    else if wc.opcode ≠ ibvWcRecv then some (.failed,s)
    else
      let s := { s with recvPosted := false }
      if wc.byteLen < sizeofMsgHeader then some (.failed,s)
      else
        let header := headerFromWire e (.load e (s.recvBuf.take sizeofMsgHeader))
        if header.magic ≠ magicNumber ∨ header.version ≠ protocolVersion then some (.failed,s)
        else if wc.byteLen < sizeofMsgHeader + header.payloadLen.toNat then some (.failed,s)
        else
          let m : Msg :=
            ⟨header,.ofList ((s.recvBuf.drop sizeofMsgHeader).take header.payloadLen.toNat)⟩
          let r := postRecv (s.emit (.copied m))
          if !r.1 then some (.failed,r.2) else some (.ok m,r.2)
  | .empty::polls =>
    let s := s.emit (.polled .empty)
    if timeout ≤ clock.head - start then some (.timeout,{ s with polls := polls })
    else srReadForLoop e timeout start s clock.tail polls

/-- The timeout of a call of `sr_read_for` and the clock while it runs. -/
structure Patience where
  timeout : ℤ
  start : ℤ
  clock : Stream' ℤ

def srReadFor (e : ByteOrder) (p : Patience) (s : RecvSide) : Option (SrReadStatus × RecvSide) :=
  if !s.usable then some (.failed,s)
  else
    let r := if s.recvPosted then (true,s) else postRecv s
    if !r.1 then some (.failed,r.2)
    else srReadForLoop e p.timeout p.start r.2 p.clock r.2.polls

/-- What a call delivered, or that it failed, with `recv_posted` after it. -/
abbrev Delivery := Option Msg × Bool

/-- Up to `n` calls of `sr_read`; none follows a failure. -/
def readAll (e : ByteOrder) : ℕ → RecvSide → Option (List Delivery × RecvSide)
  | 0, s => some ([],s)
  | n + 1, s =>
    match srReadConn e s with
    | none => none
    | some (none,s) => some ([(none,s.recvPosted)],s)
    | some (some m,s) => (readAll e n s).map fun r => ((some m,s.recvPosted)::r.1,r.2)

def readForAll (e : ByteOrder) : List Patience → RecvSide → Option (List Delivery × RecvSide)
  | [], s => some ([],s)
  | p::ps, s =>
    match srReadFor e p s with
    | none => none
    | some (.timeout,s) => readForAll e ps s
    | some (.failed,s) => some ([(none,s.recvPosted)],s)
    | some (.ok m,s) => (readForAll e ps s).map fun r => ((some m,s.recvPosted)::r.1,r.2)

variable {e : ByteOrder} {s s' : RecvSide} {polls : List Poll} {p : Patience}

/-- The receive that a call makes sure of before it polls. -/
def ensurePosted (s : RecvSide) : Bool × RecvSide :=
  if s.recvPosted then (true,s) else postRecv s

def afterWait (e : ByteOrder) : Option (Option ℕ × RecvSide) → Option (Option Msg × RecvSide)
  | none => none
  | some (none,s) => some (none,s)
  | some (some byteLen,s) =>
    match srReadFrame e byteLen s.recvBuf with
    | .error _ => some (none,{ s with recvPosted := false })
    | .ok m =>
      let r := postRecv ({ s with recvPosted := false }.emit (.copied m))
      some (if r.1 then some m else none,r.2)

theorem srReadConn_eq (e : ByteOrder) (s : RecvSide) :
    srReadConn e s =
      if !s.usable then some (none,s)
      else if !(ensurePosted s).1 then some (none,(ensurePosted s).2)
      else afterWait e (waitCq ibvWcRecv (ensurePosted s).2 (ensurePosted s).2.polls) := by
  unfold srReadConn
  change (if _ then _ else if !(ensurePosted s).1 then _ else _) = _
  congr 2

def SrReadStatus.result : SrReadStatus → Option (Option Msg)
  | .ok m => some (some m)
  | .failed => some none
  | .timeout => none

theorem loop_completion (e : ByteOrder) (timeout start : ℤ) (s : RecvSide) (clock : Stream' ℤ)
    (wc : Completion) (polls : List Poll) :
    (srReadForLoop e timeout start s clock (.completion wc::polls)).map
        (fun r => (r.1.result,r.2)) =
      (afterWait e (waitCq ibvWcRecv s (.completion wc::polls))).map (fun r => (some r.1,r.2)) := by
  unfold srReadForLoop waitCq
  dsimp only
  by_cases hsuccess : (!wc.success) = true
  · rw [if_pos hsuccess,if_pos hsuccess]
    rfl
  by_cases hopcode : wc.opcode ≠ ibvWcRecv
  · rw [if_neg hsuccess,if_neg hsuccess,if_pos hopcode,if_pos hopcode]
    rfl
  rw [if_neg hsuccess,if_neg hsuccess,if_neg hopcode,if_neg hopcode]
  unfold afterWait srReadFrame
  dsimp only
  split_ifs with _ _ _ hpost
  · rfl
  · rfl
  · rfl
  · simp only [Option.map_some,SrReadStatus.result,Option.some.injEq,Prod.mk.injEq,and_true]
    rw [if_neg (by simpa using hpost)]
  · simp only [Option.map_some,SrReadStatus.result,Option.some.injEq,Prod.mk.injEq,and_true]
    rw [if_pos (by simpa using hpost)]

/-- The loop of `sr_read_for` gives what `wait_cq` and the rest of `sr_read` give, unless its
time is over; then it has seen nothing but empty polls. -/
theorem loop_agrees {timeout start : ℤ} {clock : Stream' ℤ} {st : SrReadStatus}
    (hloop : srReadForLoop e timeout start s clock polls = some (st,s')) :
    (∀ r, st.result = some r → afterWait e (waitCq ibvWcRecv s polls) = some (r,s')) ∧
    (st.result = none → ∃ n, polls = List.replicate (n + 1) .empty ++ s'.polls ∧
      s' = { s with polls := s'.polls
                    trace := s.trace ++ List.replicate (n + 1) (.polled .empty) }) := by
  induction polls generalizing s clock with
  | nil => cases hloop
  | cons answer polls ih =>
    cases answer with
    | error =>
      cases hloop
      refine ⟨?_,by simp [SrReadStatus.result]⟩
      intro r hr
      cases hr
      rfl
    | empty =>
      simp only [srReadForLoop] at hloop
      split_ifs at hloop with htime
      · cases hloop
        refine ⟨by simp [SrReadStatus.result],?_⟩
        intro _
        exact ⟨0,rfl,rfl⟩
      · obtain ⟨hres,htimeout⟩ := ih hloop
        refine ⟨hres,?_⟩
        intro hst
        obtain ⟨n,hpolls,hs'⟩ := htimeout hst
        refine ⟨n + 1,by rw [hpolls,List.replicate_succ]; rfl,?_⟩
        conv_lhs => rw [hs']
        simp [RecvSide.emit,List.replicate_succ]
    | completion wc =>
      have hsame := loop_completion e timeout start s clock wc polls
      rw [hloop] at hsame
      obtain ⟨⟨r,w⟩,hafter,heq⟩ := Option.map_eq_some_iff.mp hsame.symm
      obtain ⟨hst,rfl⟩ := Prod.mk.inj heq
      rw [← hst]
      refine ⟨?_,by simp⟩
      intro r' hr'
      obtain rfl : r = r' := Option.some.inj hr'
      exact hafter

theorem loop_none {timeout start : ℤ} {clock : Stream' ℤ}
    (hloop : srReadForLoop e timeout start s clock polls = none) :
    waitCq ibvWcRecv s polls = none := by
  induction polls generalizing s clock with
  | nil => rfl
  | cons answer polls ih =>
    cases answer with
    | error => cases hloop
    | empty =>
      simp only [srReadForLoop] at hloop
      split_ifs at hloop
      exact ih hloop
    | completion wc =>
      have hsame := loop_completion e timeout start s clock wc polls
      rw [hloop] at hsame
      have hnone := Option.map_eq_none_iff.mp hsame.symm
      unfold afterWait at hnone
      split at hnone
      · assumption
      · cases hnone
      · dsimp only at hnone
        split at hnone <;> cases hnone

theorem waitCq_polls (expected : ℕ) (s : RecvSide) (rest polls : List Poll) :
    waitCq expected { s with polls := rest } polls = waitCq expected s polls := by
  induction polls generalizing s with
  | nil => rfl
  | cons answer polls ih =>
    cases answer with
    | error => rfl
    | empty => exact ih (s.emit (.polled .empty))
    | completion wc => rfl

theorem waitCq_empties (expected n : ℕ) (s : RecvSide) (polls : List Poll) :
    waitCq expected s (List.replicate n .empty ++ polls) =
      waitCq expected { s with trace := s.trace ++ List.replicate n (.polled .empty) } polls := by
  induction n generalizing s with
  | zero => simp
  | succ n ih =>
    rw [List.replicate_succ,List.cons_append,waitCq,ih]
    simp [RecvSide.emit,List.replicate_succ]

theorem ensurePosted_eq (hok : (ensurePosted s).1 = true) :
    (ensurePosted s).2.recvPosted = true ∧ (ensurePosted s).2.usable = s.usable ∧
      (ensurePosted s).2.polls = s.polls ∧
      (ensurePosted s).2.trace = s.trace ++ if s.recvPosted then [] else [.posted true] := by
  unfold ensurePosted at hok ⊢
  split_ifs at hok ⊢ with hposted
  · simp [hposted]
  · unfold postRecv at hok ⊢
    split_ifs at hok ⊢
    dsimp only at hok ⊢
    simp [hok,RecvSide.emit]

/-- What a call that times out does: it posts a receive if there was none, and sees nothing
but empty polls. -/
structure TimedOut (s s' : RecvSide) : Prop where
  posted : s'.recvPosted = true
  waited : ∃ n, s.polls = List.replicate (n + 1) .empty ++ s'.polls ∧
    s'.trace = s.trace ++ (if s.recvPosted then [] else [.posted true]) ++
      List.replicate (n + 1) (.polled .empty)

theorem srReadFor_eq (e : ByteOrder) (p : Patience) (s : RecvSide) :
    srReadFor e p s =
      if !s.usable then some (.failed,s)
      else if !(ensurePosted s).1 then some (.failed,(ensurePosted s).2)
      else srReadForLoop e p.timeout p.start (ensurePosted s).2 p.clock (ensurePosted s).2.polls :=
  rfl

theorem srReadFor_agrees {st : SrReadStatus} (hcall : srReadFor e p s = some (st,s')) :
    (∀ r, st.result = some r → srReadConn e s = some (r,s')) ∧
    (st.result = none → srReadConn e s' = srReadConn e s ∧ TimedOut s s') := by
  rw [srReadFor_eq] at hcall
  rw [srReadConn_eq e s]
  split_ifs at hcall with husable hpost
  · cases hcall
    refine ⟨?_,by simp [SrReadStatus.result]⟩
    intro r hr
    cases hr
    rw [if_pos husable]
  · cases hcall
    refine ⟨?_,by simp [SrReadStatus.result]⟩
    intro r hr
    cases hr
    rw [if_neg husable,if_pos hpost]
  · rw [if_neg husable,if_neg hpost]
    obtain ⟨hres,htimeout⟩ := loop_agrees hcall
    refine ⟨hres,?_⟩
    intro hst
    obtain ⟨n,hpolls,hs'⟩ := htimeout hst
    obtain ⟨hposted,hsame,hsamePolls,htrace⟩ := ensurePosted_eq (by simpa using hpost)
    have hposted' : s'.recvPosted = true := by
      rw [hs']
      exact hposted
    have husable' : ¬(!s'.usable) = true := by
      rw [hs']
      change ¬(!(ensurePosted s).2.usable) = true
      rwa [hsame]
    have hensure : ensurePosted s' = (true,s') := if_pos hposted'
    refine ⟨?_,hposted',n,by rw [← hsamePolls]; exact hpolls,?_⟩
    · rw [srReadConn_eq,if_neg husable',hensure,if_neg (by simp)]
      change afterWait e (waitCq ibvWcRecv s' s'.polls) = _
      have hwait : waitCq ibvWcRecv (ensurePosted s).2 (ensurePosted s).2.polls =
          waitCq ibvWcRecv s' s'.polls := by
        rw [hpolls,waitCq_empties,← waitCq_polls ibvWcRecv _ s'.polls]
        rw [← hs']
      rw [hwait]
    · have htrace' := congrArg RecvSide.trace hs'
      rw [htrace',← htrace]

theorem srReadFor_returns (p : Patience) {r : Option Msg × RecvSide} (hread : srReadConn e s = some r) :
    ∃ st s', srReadFor e p s = some (st,s') := by
  have hne : srReadFor e p s ≠ none := by
    intro hnone
    rw [srReadFor_eq] at hnone
    rw [srReadConn_eq] at hread
    split_ifs at hnone hread
    rw [loop_none hnone] at hread
    cases hread
  obtain ⟨⟨st,s'⟩,hcall⟩ := Option.ne_none_iff_exists'.mp hne
  exact ⟨st,s',hcall⟩

theorem readAll_congr {n : ℕ} (hread : srReadConn e s' = srReadConn e s) :
    readAll e (n + 1) s' = readAll e (n + 1) s := by
  simp only [readAll,hread]

/-- Whatever repeated calls of `sr_read_for` deliver, repeated calls of `sr_read` deliver; at
most empty polls have been seen since. -/
theorem readForAll_sound {ps : List Patience} {ds : List Delivery}
    (hfor : readForAll e ps s = some (ds,s')) :
    ∃ w n, readAll e ds.length s = some (ds,w) ∧
      w.polls = List.replicate n .empty ++ s'.polls := by
  induction ps generalizing s ds with
  | nil =>
    cases hfor
    exact ⟨s',0,rfl,rfl⟩
  | cons p ps ih =>
    rw [readForAll] at hfor
    split at hfor
    · cases hfor
    · rename_i t hcall
      obtain ⟨hsame,-,n,hpolls,-⟩ := (srReadFor_agrees hcall).2 rfl
      obtain ⟨w,k,hall,hw⟩ := ih hfor
      cases ds with
      | nil =>
        cases hall
        refine ⟨s,n + 1 + k,rfl,?_⟩
        rw [hpolls,hw,List.replicate_add (n + 1) k,List.append_assoc]
      | cons d ds =>
        refine ⟨w,k,?_,hw⟩
        rw [List.length_cons,← readAll_congr hsame]
        exact hall
    · rename_i t hcall
      have hread := (srReadFor_agrees hcall).1 _ rfl
      cases hfor
      refine ⟨s',0,?_,rfl⟩
      simp only [List.length_singleton,readAll,hread]
    · rename_i m t hcall
      have hread := (srReadFor_agrees hcall).1 _ rfl
      obtain ⟨⟨ds',t'⟩,hrest,heq⟩ := Option.map_eq_some_iff.mp hfor
      cases heq
      obtain ⟨w,k,hall,hw⟩ := ih hrest
      refine ⟨w,k,?_,hw⟩
      simp only [List.length_cons,readAll,hread,hall,Option.map_some]

theorem readForAll_complete {n : ℕ} {ds : List Delivery} (hall : readAll e n s = some (ds,s'))
    (ps : Stream' Patience) : ∃ k, readForAll e (ps.take k) s = some (ds,s') := by
  induction n generalizing s ds ps with
  | zero =>
    cases hall
    exact ⟨0,rfl⟩
  | succ n ihn =>
    -- a call that times out has used up an empty poll
    induction hlen : s.polls.length using Nat.strong_induction_on generalizing s ps with
    | _ len ihlen =>
      obtain ⟨r,hread⟩ : ∃ r, srReadConn e s = some r := by
        rw [readAll] at hall
        split at hall
        · cases hall
        · exact ⟨_,by assumption⟩
        · exact ⟨_,by assumption⟩
      obtain ⟨st,t,hcall⟩ := srReadFor_returns ps.head hread
      obtain ⟨hres,htimeout⟩ := srReadFor_agrees hcall
      cases st with
      | timeout =>
        obtain ⟨hsame,-,k,hpolls,-⟩ := htimeout rfl
        have hshort : t.polls.length < len := by
          rw [← hlen,hpolls,List.length_append,List.length_replicate]
          omega
        rw [← readAll_congr hsame] at hall
        obtain ⟨j,hj⟩ := ihlen _ hshort hall ps.tail rfl
        refine ⟨j + 1,?_⟩
        rw [Stream'.take_succ,readForAll,hcall]
        exact hj
      | failed =>
        rw [readAll,hres _ rfl] at hall
        cases hall
        refine ⟨1,?_⟩
        rw [Stream'.take_succ,readForAll,hcall]
      | ok m =>
        rw [readAll,hres _ rfl] at hall
        obtain ⟨⟨ds',t'⟩,hrest,heq⟩ := Option.map_eq_some_iff.mp hall
        cases heq
        obtain ⟨j,hj⟩ := ihn hrest ps.tail
        refine ⟨j + 1,?_⟩
        rw [Stream'.take_succ,readForAll,hcall]
        simp only [hj,Option.map_some]

/-- No receive is outstanding and nothing has to be copied; a receive is outstanding; a
message is there. -/
inductive BufState
  | free | posted | full
  deriving DecidableEq

def BufState.ofPosted (recvPosted : Bool) : BufState := if recvPosted then .posted else .free

/-- A completion that fills `recv_buf`. -/
def Completion.isRecv (wc : Completion) : Bool := wc.success && decide (wc.opcode = ibvWcRecv)

/-- What may be done to the buffer, and what becomes of it. -/
def BufState.step : BufState → Effect → Option BufState
  | .free, .posted ok => some (ofPosted ok)
  | .posted, .polled (.completion wc) => some (if wc.isRecv then .full else .posted)
  | .posted, .polled _ => some .posted
  | .full, .copied _ => some .free
  | _, _ => none

def BufState.run (b : BufState) : List Effect → Option BufState
  | [] => some b
  | x::xs => (b.step x).bind fun b => b.run xs

theorem BufState.run_append (b : BufState) (t t' : List Effect) :
    b.run (t ++ t') = (b.run t).bind fun b => b.run t' := by
  induction t generalizing b with
  | nil => rfl
  | cons x t ih =>
    rw [List.cons_append,run,run]
    cases b.step x with
    | none => rfl
    | some b' => exact ih b'

def Effect.isPost : Effect → Bool
  | .posted ok => ok
  | _ => false

def Effect.isReceipt : Effect → Bool
  | .polled (.completion wc) => wc.isRecv
  | _ => false

def Effect.isCopy : Effect → Bool
  | .copied _ => true
  | _ => false

theorem BufState.step_counts {b b' : BufState} {x : Effect} (hstep : b.step x = some b') :
    (decide (b = .posted)).toNat + (if x.isPost then 1 else 0) =
        (if x.isReceipt then 1 else 0) + (decide (b' = .posted)).toNat ∧
      (decide (b = .full)).toNat + (if x.isReceipt then 1 else 0) =
        (if x.isCopy then 1 else 0) + (decide (b' = .full)).toNat := by
  cases b with
  | free =>
    cases x with
    | posted ok => cases ok <;> cases hstep <;> decide
    | polled answer => cases hstep
    | copied m => cases hstep
  | posted =>
    cases x with
    | posted ok => cases hstep
    | polled answer =>
      cases answer with
      | error => cases hstep; decide
      | empty => cases hstep; decide
      | completion wc =>
        cases hstep
        cases hrecv : wc.isRecv <;> simp [Effect.isPost,Effect.isReceipt,Effect.isCopy,hrecv]
    | copied m => cases hstep
  | full =>
    cases x with
    | posted ok => cases hstep
    | polled answer => cases hstep
    | copied m =>
      cases hstep
      simp [Effect.isPost,Effect.isReceipt,Effect.isCopy]

theorem BufState.run_counts {b b' : BufState} {t : List Effect} (hrun : b.run t = some b') :
    (decide (b = .posted)).toNat + t.countP Effect.isPost =
        t.countP Effect.isReceipt + (decide (b' = .posted)).toNat ∧
      (decide (b = .full)).toNat + t.countP Effect.isReceipt =
        t.countP Effect.isCopy + (decide (b' = .full)).toNat := by
  induction t generalizing b with
  | nil =>
    cases hrun
    simp
  | cons x t ih =>
    rw [run] at hrun
    obtain ⟨b₁,hstep,hrest⟩ := Option.bind_eq_some_iff.mp hrun
    obtain ⟨hposts,hcopies⟩ := ih hrest
    obtain ⟨hpost,hcopy⟩ := step_counts hstep
    rw [List.countP_cons,List.countP_cons,List.countP_cons]
    omega

/-- From `s` to `s'` the buffer was used as it may be, and is in state `b` now. -/
def UsesTo (s s' : RecvSide) (b : BufState) : Prop :=
  ∃ t, s'.trace = s.trace ++ t ∧ (BufState.ofPosted s.recvPosted).run t = some b

theorem UsesTo.refl (s : RecvSide) : UsesTo s s (.ofPosted s.recvPosted) := ⟨[],by simp,rfl⟩

theorem UsesTo.trans {w : RecvSide} {b : BufState} (hfirst : UsesTo s w (.ofPosted w.recvPosted))
    (hsecond : UsesTo w s' b) : UsesTo s s' b := by
  obtain ⟨t,htrace,hrun⟩ := hfirst
  obtain ⟨t',htrace',hrun'⟩ := hsecond
  refine ⟨t ++ t',by rw [htrace',htrace,List.append_assoc],?_⟩
  rw [BufState.run_append,hrun]
  exact hrun'

theorem postRecv_uses (s : RecvSide) : ∃ t, (postRecv s).2.trace = s.trace ++ t ∧
    BufState.free.run t = some (.ofPosted (postRecv s).1) ∧
    ((postRecv s).1 = true → (postRecv s).2.recvPosted = true) := by
  unfold postRecv
  split_ifs with hnull
  · exact ⟨[],by simp,rfl,by simp⟩
  · dsimp only
    refine ⟨[.posted s.posts.head],?_,rfl,?_⟩
    · split_ifs <;> rfl
    · intro hok
      rw [if_pos hok]

theorem waitCq_uses {w : Option ℕ} (hwait : waitCq ibvWcRecv s polls = some (w,s')) :
    ∃ t, s'.trace = s.trace ++ t ∧
      BufState.posted.run t = some (if w.isSome then .full else .posted) := by
  induction polls generalizing s with
  | nil => cases hwait
  | cons answer polls ih =>
    cases answer with
    | error =>
      cases hwait
      exact ⟨[.polled .error],rfl,rfl⟩
    | empty =>
      obtain ⟨t,htrace,hrun⟩ := ih hwait
      refine ⟨.polled .empty::t,?_,hrun⟩
      rw [htrace]
      simp [RecvSide.emit]
    | completion wc =>
      simp only [waitCq] at hwait
      have hrun : BufState.posted.run [.polled (.completion wc)] =
          some (if wc.isRecv then .full else .posted) := rfl
      split_ifs at hwait with hsuccess hopcode
      · cases hwait
        refine ⟨[.polled (.completion wc)],rfl,?_⟩
        rw [hrun,Completion.isRecv]
        simp at hsuccess
        simp [hsuccess]
      · cases hwait
        refine ⟨[.polled (.completion wc)],rfl,?_⟩
        rw [hrun,Completion.isRecv]
        simp [hopcode]
      · cases hwait
        refine ⟨[.polled (.completion wc)],rfl,?_⟩
        rw [hrun,Completion.isRecv]
        simp at hsuccess hopcode
        simp [hsuccess,hopcode]

theorem ensurePosted_uses (s : RecvSide) : ∃ t, (ensurePosted s).2.trace = s.trace ++ t ∧
    (BufState.ofPosted s.recvPosted).run t = some (.ofPosted (ensurePosted s).1) := by
  unfold ensurePosted
  split_ifs with hposted
  · exact ⟨[],by simp,by rw [hposted]; rfl⟩
  · obtain ⟨t,htrace,hrun,-⟩ := postRecv_uses s
    refine ⟨t,htrace,?_⟩
    rw [Bool.not_eq_true] at hposted
    rw [hposted]
    exact hrun

theorem srReadConn_uses {r : Option Msg} (hread : srReadConn e s = some (r,s')) :
    ∃ b, UsesTo s s' b ∧ (r ≠ none → b = .ofPosted s'.recvPosted) := by
  rw [srReadConn_eq] at hread
  obtain ⟨t,htrace,hrun⟩ := ensurePosted_uses s
  split_ifs at hread with husable hpost
  · cases hread
    exact ⟨_,.refl _,fun _ => rfl⟩
  · cases hread
    exact ⟨_,⟨t,htrace,hrun⟩,by simp⟩
  · have hok : (ensurePosted s).1 = true := by simpa using hpost
    rw [hok] at hrun
    unfold afterWait at hread
    split at hread
    · cases hread
    · rename_i w hwait
      cases hread
      obtain ⟨t',htrace',hrun'⟩ := waitCq_uses hwait
      refine ⟨.posted,⟨t ++ t',by rw [htrace',htrace,List.append_assoc],?_⟩,by simp⟩
      rw [BufState.run_append,hrun]
      exact hrun'
    · rename_i byteLen w hwait
      obtain ⟨t',htrace',hrun'⟩ := waitCq_uses hwait
      have hfull : (BufState.ofPosted s.recvPosted).run (t ++ t') = some .full := by
        rw [BufState.run_append,hrun]
        exact hrun'
      have hsum : w.trace = s.trace ++ (t ++ t') := by rw [htrace',htrace,List.append_assoc]
      split at hread
      · cases hread
        exact ⟨_,⟨t ++ t',hsum,hfull⟩,by simp⟩
      · rename_i m hframe
        cases hread
        generalize hpost₂ : postRecv ({ w with recvPosted := false }.emit (.copied m)) = r₂
        obtain ⟨t₂,htrace₂,hrun₂,hposted⟩ :=
          postRecv_uses ({ w with recvPosted := false }.emit (.copied m))
        rw [hpost₂] at htrace₂ hrun₂ hposted
        refine ⟨.ofPosted r₂.1,⟨t ++ t' ++ (.copied m::t₂),?_,?_⟩,?_⟩
        · rw [htrace₂]
          simp [RecvSide.emit,hsum]
        · rw [BufState.run_append,hfull]
          exact hrun₂
        · intro hne
          have hok₂ : r₂.1 = true := by
            by_contra hno
            exact hne (if_neg hno)
          rw [hposted hok₂,hok₂]

theorem TimedOut.uses (ht : TimedOut s s') : UsesTo s s' (.ofPosted s'.recvPosted) := by
  obtain ⟨n,-,htrace⟩ := ht.waited
  have hempties : ∀ k, BufState.posted.run (List.replicate k (.polled .empty)) = some .posted := by
    intro k
    induction k with
    | zero => rfl
    | succ k ih =>
      rw [List.replicate_succ]
      exact ih
  refine ⟨_,by rw [htrace,List.append_assoc],?_⟩
  rw [ht.posted,BufState.run_append]
  cases s.recvPosted with
  | false => exact hempties (n + 1)
  | true => exact hempties (n + 1)

theorem readAll_uses {n : ℕ} {ds : List Delivery} (hall : readAll e n s = some (ds,s')) :
    ∃ b, UsesTo s s' b := by
  induction n generalizing s ds with
  | zero =>
    cases hall
    exact ⟨_,.refl _⟩
  | succ n ih =>
    rw [readAll] at hall
    split at hall
    · cases hall
    · rename_i t hread
      cases hall
      obtain ⟨b,huse,-⟩ := srReadConn_uses hread
      exact ⟨b,huse⟩
    · rename_i m t hread
      obtain ⟨⟨ds',t'⟩,hrest,heq⟩ := Option.map_eq_some_iff.mp hall
      cases heq
      obtain ⟨b,huse,hb⟩ := srReadConn_uses hread
      obtain ⟨b',huse'⟩ := ih hrest
      rw [hb (by simp)] at huse
      exact ⟨b',huse.trans huse'⟩

theorem readForAll_uses {ps : List Patience} {ds : List Delivery}
    (hfor : readForAll e ps s = some (ds,s')) : ∃ b, UsesTo s s' b := by
  induction ps generalizing s ds with
  | nil =>
    cases hfor
    exact ⟨_,.refl _⟩
  | cons p ps ih =>
    rw [readForAll] at hfor
    split at hfor
    · cases hfor
    · rename_i t hcall
      obtain ⟨b',huse'⟩ := ih hfor
      exact ⟨b',((srReadFor_agrees hcall).2 rfl).2.uses.trans huse'⟩
    · rename_i t hcall
      cases hfor
      obtain ⟨b,huse,-⟩ := srReadConn_uses ((srReadFor_agrees hcall).1 _ rfl)
      exact ⟨b,huse⟩
    · rename_i m t hcall
      obtain ⟨⟨ds',t'⟩,hrest,heq⟩ := Option.map_eq_some_iff.mp hfor
      cases heq
      obtain ⟨b,huse,hb⟩ := srReadConn_uses ((srReadFor_agrees hcall).1 _ rfl)
      obtain ⟨b',huse'⟩ := ih hrest
      rw [hb (by simp)] at huse
      exact ⟨b',huse.trans huse'⟩

/-- The trace `t` of calls on a connection with a receive posted or not: one receive at most is
outstanding at any time, and one is posted only when none is and every message has been copied
out. -/
structure OneReceive (recvPosted : Bool) (t : List Effect) : Prop where
  outstanding : ∀ t₁ t₂, t = t₁ ++ t₂ →
    recvPosted.toNat + t₁.countP Effect.isPost ≤ t₁.countP Effect.isReceipt + 1
  copiedFirst : ∀ t₁ ok t₂, t = t₁ ++ .posted ok::t₂ →
    recvPosted.toNat + t₁.countP Effect.isPost = t₁.countP Effect.isReceipt ∧
      t₁.countP Effect.isCopy = t₁.countP Effect.isReceipt

theorem ofPosted_toNat (recvPosted : Bool) :
    (decide (BufState.ofPosted recvPosted = .posted)).toNat = recvPosted.toNat ∧
      (decide (BufState.ofPosted recvPosted = .full)).toNat = 0 := by
  cases recvPosted <;> decide

theorem UsesTo.oneReceive {b : BufState} {t : List Effect} (huse : UsesTo s s' b)
    (htrace : s'.trace = s.trace ++ t) : OneReceive s.recvPosted t := by
  obtain ⟨t',htrace',hrun⟩ := huse
  obtain rfl : t = t' := List.append_cancel_left (htrace.symm.trans htrace')
  obtain ⟨hposted,hfull⟩ := ofPosted_toNat s.recvPosted
  constructor
  · rintro t₁ t₂ rfl
    rw [BufState.run_append] at hrun
    obtain ⟨b₁,hrun₁,-⟩ := Option.bind_eq_some_iff.mp hrun
    obtain ⟨hposts,-⟩ := BufState.run_counts hrun₁
    have := (decide (b₁ = .posted)).toNat_le
    omega
  · rintro t₁ ok t₂ rfl
    rw [BufState.run_append] at hrun
    obtain ⟨b₁,hrun₁,hrest⟩ := Option.bind_eq_some_iff.mp hrun
    have hfree : b₁ = .free := by
      cases b₁ with
      | free => rfl
      | posted => cases hrest
      | full => cases hrest
    subst hfree
    obtain ⟨hposts,hcopies⟩ := BufState.run_counts hrun₁
    have hfree₁ : (decide (BufState.free = .posted)).toNat = 0 := rfl
    have hfree₂ : (decide (BufState.free = .full)).toNat = 0 := rfl
    omega

/-- What may be relied on about `sr_read` and `sr_read_for` on a connection. -/
structure ReadsAgree (e : ByteOrder) (s : RecvSide) : Prop where
  sound : ∀ ps ds s', readForAll e ps s = some (ds,s') → ∃ w n,
    readAll e ds.length s = some (ds,w) ∧ w.polls = List.replicate n .empty ++ s'.polls
  complete : ∀ n ds s', readAll e n s = some (ds,s') →
    ∀ ps : Stream' Patience, ∃ k, readForAll e (ps.take k) s = some (ds,s')
  timedOut : ∀ p s', srReadFor e p s = some (.timeout,s') → TimedOut s s'
  oneReceive : ∀ s' t, s'.trace = s.trace ++ t → (∃ n ds, readAll e n s = some (ds,s')) →
    OneReceive s.recvPosted t
  oneReceiveFor : ∀ s' t, s'.trace = s.trace ++ t → (∃ ps ds, readForAll e ps s = some (ds,s')) →
    OneReceive s.recvPosted t

theorem reads_agree (e : ByteOrder) (s : RecvSide) : ReadsAgree e s where
  sound _ _ _ hfor := readForAll_sound hfor
  complete _ _ _ hall ps := readForAll_complete hall ps
  timedOut _ _ hcall := ((srReadFor_agrees hcall).2 rfl).2
  oneReceive := by
    rintro s' t htrace ⟨n,ds,hall⟩
    obtain ⟨b,huse⟩ := readAll_uses hall
    exact huse.oneReceive htrace
  oneReceiveFor := by
    rintro s' t htrace ⟨ps,ds,hfor⟩
    obtain ⟨b,huse⟩ := readForAll_uses hfor
    exact huse.oneReceive htrace

/-- A message that `sr_write` put on the wire is what `sr_read` delivers once the receive of its
frame completes. -/
theorem sent_delivered {padding frame rest : List Byte} {m : Msg} (hpad : padding.length = 4)
    (hm : m.WellFormed) (f : ByteOrder) (hsent : srWriteFrame e padding m = .ok frame)
    (husable : s.usable = true) (hqp : s.qpReady = true) (hposted : s.recvPosted = true)
    (hpost : s.posts.head = true) {n : ℕ} (hpolls : s.polls = List.replicate n .empty ++
      .completion ⟨true,ibvWcRecv,frame.length,frame ++ rest⟩::polls) :
    ∃ s', srReadConn f s = some (some m,s') ∧ s'.recvPosted = true ∧ s'.polls = polls := by
  obtain ⟨frame',hsent',-,-,hread⟩ := (wire_format e f padding hpad).roundTrip m rest hm
  obtain rfl : frame = frame' := Except.ok.inj (hsent.symm.trans hsent')
  have hensure : ensurePosted s = (true,s) := if_pos hposted
  rw [srReadConn_eq,if_neg (by simp [husable]),hensure,if_neg (by simp)]
  dsimp only
  rw [hpolls,waitCq_empties]
  simp [waitCq,afterWait,hread,RecvSide.emit,postRecv,husable,hqp,hpost]

end INA2A

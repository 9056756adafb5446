import INA2A.Peer
import INA2A.Registration
import INA2A.Resources

/-! The two `main` functions around the loops: the command line of a host, the exit codes, and
what becomes of the connections and of the listener on every path. -/
namespace INA2A

open ByteBuffers BitWords EventMachine Ledgers

def LoopMode.name : LoopMode → String
  | .fourLoops => "four"
  | .ioCombined => "io"
  | .allCombined => "all"

def parseLoopMode (s : String) : Option LoopMode :=
  if s = "four" ∨ s = "4" then some .fourLoops
  else if s = "io" ∨ s = "3" then some .ioCombined
  else if s = "all" ∨ s = "1" then some .allCombined
  else none

theorem parseLoopMode_name (mode : LoopMode) : parseLoopMode mode.name = some mode := by
  cases mode <;> rfl

/-- The arguments after `std::stoi`; the last two may be missing. -/
structure HostCommand where
  rank : ℤ
  numTokens : ℤ
  numHosts : ℤ
  topk : ℤ
  windowSize : Option ℤ
  loopMode : Option String

structure HostSettings where
  rank : ℤ
  numTokens : ℤ
  numHosts : ℤ
  topk : ℤ
  windowSize : ℤ
  mode : LoopMode

def HostCommand.mode (a : HostCommand) : Option LoopMode :=
  match a.loopMode with
  | none => some .fourLoops
  | some s => parseLoopMode s

/-- The checks of `main`, or the code it exits with; `none` is a command line that is too short. -/
def checkHostCommand : Option HostCommand → Except ℕ HostSettings
  | none => .error 1
  | some a =>
    match a.mode with
    | none => .error 7
    | some mode =>
      if a.rank < 0 ∨ a.numHosts ≤ a.rank then .error 2
      else if a.numHosts ≤ 0 ∨ 64 < a.numHosts then .error 3
      else .ok { rank := a.rank, numTokens := a.numTokens, numHosts := a.numHosts
                 topk := clampTopk a.numHosts a.topk, windowSize := a.windowSize.getD 1
                 mode := mode }

/-- What the rest of the host may rely on. -/
structure HostSettings.Valid (a : HostSettings) : Prop where
  rank : 0 ≤ a.rank ∧ a.rank < a.numHosts
  numHosts : a.numHosts ≤ 64
  topk : 1 ≤ a.topk ∧ a.topk ≤ a.numHosts

theorem checkHostCommand_valid {a : Option HostCommand} {v : HostSettings}
    (h : checkHostCommand a = .ok v) : v.Valid := by
  unfold checkHostCommand at h
  split at h
  · cases h
  · split at h
    · cases h
    · split_ifs at h with hrank hhosts
      obtain rfl := Except.ok.inj h
      push Not at hrank hhosts
      refine ⟨hrank,hhosts.2,?_⟩
      simp only [clampTopk]
      split_ifs <;> omega

/-- `make_workload` and what else `main` stores before it starts its threads; `shuffle` is what the
tokens draw.  `reserve` takes the number of tokens as a `size_t` and throws on a negative one. -/
def HostSettings.env (v : HostSettings) (shuffle : ℕ → List ℕ) : Option HostEnv :=
  if v.numTokens < 0 then none
  else some {
    rank := v.rank.toNat
    workload := makeWorkload 1 v.numTokens.toNat v.rank.toNat v.numHosts v.topk shuffle
    windowSize := v.windowSize
    mode := v.mode }

def Config.settings {N : ℕ} (c : Config N) (h : Fin N) : HostSettings where
  rank := h
  numTokens := (c.args h).numTokens
  numHosts := N
  topk := clampTopk N (c.args h).topk
  windowSize := (c.args h).windowSize
  mode := (c.args h).mode

theorem settings_env {N : ℕ} (c : Config N) (h : Fin N) :
    (c.settings h).env (c.args h).shuffle = some (c.env h) := by
  have hnonneg : ¬((c.args h).numTokens : ℤ) < 0 := by omega
  simp [HostSettings.env,Config.settings,Config.env,Config.workload,hnonneg]

/-- A host process: in its loops with an open connection, back from `main`, or ended by an
exception that nothing catches. -/
inductive HostProc
  | looping (conn : SrConn) (env : HostEnv) (h : Host) (w : World)
  | returned (code : ℕ) (w : World)
  | aborted (w : World)

def helloMsg (rank : ℤ) (ts : U64) : Msg where
  header := { MsgHeader.new .hello 0 with
    runId := 1
    srcRank := BitVec.ofInt 32 rank
    originRank := BitVec.ofInt 32 rank
    timestampNs := ts }
  payload := Bytes.empty

/-- What `main` meets before its loops: the time of its HELLO, which messages it can send, and what
the read after HELLO delivers. -/
structure Greeting where
  helloTs : U64
  sends : Msg → Bool
  reply : Option Msg

/-- Every thread that `main` joins has returned. -/
def Host.joined (env : HostEnv) (h : Host) : Bool :=
  match env.mode, h.computing, h.sending, h.reading, h.turn with
  | .fourLoops, .exited, .exited, .exited, _ => !h.running && h.control.idle
  | .ioCombined, .exited, _, _, .exited => !h.running && h.control.idle
  | .allCombined, _, _, _, .exited => true
  | _, _, _, _, _ => false

/-- A step of the loops, or with `none` the end of `main`.  Its call of `shutdown_runtime` between
the joins finds `running` false, which only a first call can have made it, and changes nothing. -/
def hostProcStep : HostProc → Option PeerAction → Option (HostProc × List Deed)
  | .looping conn env h w, some x =>
    (peerStep (0 : Fin 1) env h x).map fun r => (.looping conn env r.1 w,r.2)
  | .looping conn env h w, none =>
    if h.joined env then (srClose conn w).map fun w => (.returned 0 w,[]) else none
  | _, _ => none

structure Greeted (a : Option HostCommand) (greeting : Greeting) (v : HostSettings) : Prop where
  checked : checkHostCommand a = .ok v
  valid : v.Valid
  sent : greeting.sends (helloMsg v.rank greeting.helloTs) = true
  acked : ∃ m, greeting.reply = some m ∧ m.header.type = MsgType.ack.code

theorem helloMsg_rank {v : HostSettings} (hv : v.Valid) (ts : U64) :
    (helloMsg v.rank ts).header.srcRank.toInt = v.rank := by
  obtain ⟨hnonneg,hlt⟩ := hv.rank
  have hmax := hv.numHosts
  change (BitVec.ofInt 32 v.rank).toInt = v.rank
  rw [BitVec.toInt_ofInt]
  exact Int.bmod_eq_of_le (by omega) (by omega)

/-- A switch that waits for as many hosts registers the host under its rank, unless somebody else
has taken that, and the ACK that it answers with lets the host go on. -/
theorem handshake {a : Option HostCommand} {v : HostSettings} (hcheck : checkHostCommand a = .ok v)
    {loop : AcceptLoop} (hfree : loop.hosts.contains v.rank = false) (c : ℕ) (ts ackTs : U64) :
    ∃ m, (acceptConn v.numHosts loop c (some (helloMsg v.rank ts)) ackTs true).2 =
        [.registered ⟨v.rank,c⟩,.toConn c m] ∧ Greeted a ⟨ts,fun _ => true,some m⟩ v := by
  have hv := checkHostCommand_valid hcheck
  have htype : (helloMsg v.rank ts).header.type = MsgType.hello.code := rfl
  have hrange : ¬(v.rank < 0 ∨ v.numHosts ≤ v.rank) := by
    obtain ⟨hnonneg,hlt⟩ := hv.rank
    omega
  refine ⟨helloAckMsg (helloMsg v.rank ts).header ackTs,?_,hcheck,hv,rfl,_,rfl,rfl⟩
  simp [acceptConn,htype,helloMsg_rank hv,hrange,hfree]

/-- A connection is all that the process holds besides what there was before it. -/
structure Connected (start w : World) (conn : SrConn) : Prop where
  full : conn.Full
  live : w.ledger.live = (conn.entries : Multiset (Entry Kind)) + start.ledger.live

/-- Where a host process can be.  It has released all when it has returned, it returns 0 only from
loops that have all ended, and only a negative number of tokens aborts it. -/
structure HostExit (a : Option HostCommand) (shuffle : ℕ → List ℕ) (greeting : Greeting)
    (start : World) (hist : List Deed) (s : HostProc) : Prop where
  released : ∀ code w, s = .returned code w → w.ledger.live = start.ledger.live
  codes : ∀ code w, s = .returned code w → code ∈ [0,1,2,3,4,5,6,7]
  ended : ∀ w, s = .returned 0 w → ∃ v env h, Greeted a greeting v ∧
    v.env shuffle = some env ∧ Run (peerMachine (0 : Fin 1) env) h hist ∧ h.joined env = true
  looping : ∀ conn env h w, s = .looping conn env h w →
    (∃ v, Greeted a greeting v ∧ v.env shuffle = some env) ∧ Connected start w conn ∧
      Run (peerMachine (0 : Fin 1) env) h hist
  aborted : ∀ w, s = .aborted w → hist = [] ∧
    ∃ v conn, Greeted a greeting v ∧ v.numTokens < 0 ∧ Connected start w conn

section host

variable {a : Option HostCommand} {shuffle : ℕ → List ℕ} {greeting : Greeting} {start w : World}
  {conn : SrConn} {code : ℕ} {s s' : HostProc} {hist ds : List Deed}

theorem Connected.close (hc : Connected start w conn) :
    ∃ w', srClose conn w = some w' ∧ w'.ledger.live = start.ledger.live :=
  hc.full.sound.close hc.live start.ledger.closed

theorem HostExit.early (hlive : w.ledger.live = start.ledger.live) (hcode : code ∈ [1,2,3,4,5,6,7]) :
    HostExit a shuffle greeting start [] (.returned code w) := by
  refine ⟨?_,?_,?_,by simp,by simp⟩
  · rintro _ _ ⟨⟩
    exact hlive
  · rintro _ _ ⟨⟩
    exact List.mem_cons_of_mem 0 hcode
  · rintro _ ⟨⟩
    simp at hcode

theorem HostExit.step (hs : HostExit a shuffle greeting start hist s) {x : Option PeerAction}
    (hstep : hostProcStep s x = some (s',ds)) :
    HostExit a shuffle greeting start (hist ++ ds) s' := by
  unfold hostProcStep at hstep
  split at hstep
  · rename_i conn env h w x
    obtain ⟨⟨v,ds'⟩,hpeer,heq⟩ := Option.map_eq_some_iff.mp hstep
    obtain ⟨rfl,rfl⟩ := Prod.mk.inj heq
    obtain ⟨hstarted,hc,hrun⟩ := hs.looping conn env h w rfl
    refine ⟨by simp,by simp,by simp,?_,by simp⟩
    rintro _ _ _ _ ⟨⟩
    exact ⟨hstarted,hc,hrun.step hpeer⟩
  · rename_i conn env h w
    split_ifs at hstep with hjoined
    obtain ⟨⟨v,hgreeted,henv⟩,hc,hrun⟩ := hs.looping conn env h w rfl
    obtain ⟨w',hclose,hlive⟩ := hc.close
    rw [hclose] at hstep
    obtain ⟨rfl,rfl⟩ := Prod.mk.inj (Option.some.inj hstep)
    rw [List.append_nil]
    refine ⟨?_,?_,?_,by simp,by simp⟩
    · rintro _ _ ⟨⟩
      exact hlive
    · rintro _ _ ⟨⟩
      decide
    · rintro _ ⟨⟩
      exact ⟨v,env,h,hgreeted,henv,hrun,hjoined⟩
  · cases hstep

end host

/-- A machine on which every call succeeds. -/
def kindWorld : World := ⟨.empty,Stream'.const true⟩

def HostProc.code : HostProc → Option ℕ
  | .returned code _ => some code
  | _ => none

/-- What the switch holds, its connections by the numbers that the accept loop gives them. -/
structure SwitchProc where
  loop : AcceptLoop
  listener : Option SrListener
  conns : List (ℕ × SrConn)
  world : World

/-- `sr_close` of the connection `c`, which must not have been closed. -/
def closeConn (c : ℕ) (s : SwitchProc) : Option SwitchProc :=
  (s.conns.find? fun x => x.1 == c).bind fun x =>
  (srClose x.2 s.world).map fun w =>
    { s with conns := s.conns.eraseP fun x => x.1 == c, world := w }

def closeListener (s : SwitchProc) : Option SwitchProc :=
  s.listener.bind fun listener =>
  (srCloseListener listener s.world).map fun w => { s with listener := none, world := w }

def heed (s : SwitchProc) : AcceptEvent → Option SwitchProc
  | .closed c => closeConn c s
  | .listenerClosed => closeListener s
  | .registered _ => some s
  | .toConn _ _ => some s

def heedAll : List AcceptEvent → SwitchProc → Option SwitchProc
  | [], s => some s
  | ev::evs, s => (heed s ev).bind (heedAll evs)

/-- One iteration of the accept loop; `hello` is what the first read on a new connection
delivered, `ackSent` what sending the ACK returned. -/
def SwitchProc.attempt (numHosts : ℤ) (s : SwitchProc) (hello : Option Msg) (ackTs : U64)
    (ackSent : Bool) : Option SwitchProc :=
  (srAccept s.world).bind fun r =>
  (acceptStep numHosts s.loop
    (if r.1.isNone then .acceptFailed else .connected hello ackTs ackSent)).bind fun l =>
  heedAll l.2 { s with loop := l.1
                       conns := s.conns ++ (r.1.map fun conn => (s.loop.connections,conn)).toList
                       world := r.2 }

/-- `if (host->conn) { sr_close(host->conn); host->conn = nullptr; }` -/
def closeIfOpen (c : ℕ) (s : SwitchProc) : Option SwitchProc :=
  if s.conns.any fun x => x.1 == c then closeConn c s else some s

def closeAll : List ℕ → SwitchProc → Option SwitchProc
  | [], s => some s
  | c::cs, s => (closeIfOpen c s).bind (closeAll cs)

/-- The rest of `main`: the readers close connections in some order, then those of the accepted
hosts that are still open are closed, and the listener. -/
def SwitchProc.finish (byReaders : List ℕ) (s : SwitchProc) : Option SwitchProc :=
  (closeAll byReaders s).bind fun s =>
  (closeAll (s.loop.acceptedHosts.map HostConn.conn) s).bind closeListener

/-- The states of the accept loop from a successful `sr_listen` on. -/
inductive SwitchProc.Reached (numHosts : ℤ) (start : World) : SwitchProc → Prop
  | listening (listener : SrListener) (w : World) : srListen start = some (some listener,w) →
      Reached numHosts start ⟨.initial,some listener,[],w⟩
  | attempt (s s' : SwitchProc) (hello : Option Msg) (ackTs : U64) (ackSent : Bool) :
      Reached numHosts start s → s.attempt numHosts hello ackTs ackSent = some s' →
      Reached numHosts start s'

def SwitchProc.keys (s : SwitchProc) : List ℕ := s.conns.map Prod.fst

def heldBy (conns : List (ℕ × SrConn)) : Multiset (Entry Kind) :=
  (conns.map fun x => (x.2.entries : Multiset (Entry Kind))).sum

def listenerHeld (listener : Option SrListener) : Multiset (Entry Kind) :=
  (listener.map fun l => (l.entries : Multiset (Entry Kind))).getD 0

/-- The listener and the open connections are all that is held on top of what was. -/
structure SwitchProc.Holds (start : World) (s : SwitchProc) : Prop where
  live : s.world.ledger.live = heldBy s.conns + (listenerHeld s.listener + start.ledger.live)
  sound : ∀ x ∈ s.conns, x.2.Sound
  listening : ∀ l, s.listener = some l → l.Sound
  keys : s.keys.Nodup

variable {start w : World} {s s' : SwitchProc} {conns : List (ℕ × SrConn)} {c : ℕ}
  {listener : Option SrListener}

theorem heldBy_append (conns conns' : List (ℕ × SrConn)) :
    heldBy (conns ++ conns') = heldBy conns + heldBy conns' := by
  simp [heldBy]

theorem heldBy_cons (x : ℕ × SrConn) (conns : List (ℕ × SrConn)) :
    heldBy (x::conns) = (x.2.entries : Multiset (Entry Kind)) + heldBy conns := by
  simp [heldBy]

theorem heldBy_closed (h : ∀ x ∈ conns, x.2.Sound) : Closed (heldBy conns) := by
  induction conns with
  | nil => simp [heldBy,Closed]
  | cons x conns ih =>
    rw [heldBy_cons]
    exact (h x List.mem_cons_self).closed.add (ih fun y hy => h y (List.mem_cons_of_mem _ hy))

theorem listenerHeld_closed (h : ∀ l, listener = some l → l.Sound) :
    Closed (listenerHeld listener) := by
  cases listener with
  | none => simp [listenerHeld,Closed]
  | some l =>
    have hl := h l rfl
    intro e he n hn
    simp only [listenerHeld,SrListener.entries,Option.map_some,Option.getD_some,Multiset.mem_coe,
      List.mem_cons,List.not_mem_nil,or_false] at he
    rcases he with rfl | rfl
    · simp [hl.id] at hn
    · simp [hl.object] at hn

theorem SwitchProc.Holds.close (h : s.Holds start) (hc : c ∈ s.keys) :
    ∃ s', closeConn c s = some s' ∧ s'.Holds start ∧ s'.keys = s.keys.erase c ∧
      s'.listener = s.listener ∧ s'.loop = s.loop := by
  obtain ⟨x,hx,rfl⟩ := List.mem_map.mp hc
  obtain ⟨y,before,after,hbefore,hy,hsplit,herase⟩ :=
    List.exists_of_eraseP hx (p:=fun y => y.1 == x.1) (by simp)
  have hkey : y.1 = x.1 := by simpa using hy
  have hfind : s.conns.find? (fun y => y.1 == x.1) = some y := by
    rw [hsplit,List.find?_append,List.find?_eq_none.mpr (by simpa using hbefore)]
    simp [hkey]
  have hsound := h.sound
  have hkeys := h.keys
  have hlive := h.live
  rw [SwitchProc.keys] at hkeys
  rw [hsplit] at hsound hkeys hlive
  have hrest : ∀ z ∈ before ++ after, z.2.Sound := by
    intro z hz
    apply hsound
    simp only [List.mem_append,List.mem_cons] at hz ⊢
    tauto
  have hlive' : s.world.ledger.live = (y.2.entries : Multiset (Entry Kind)) +
      (heldBy (before ++ after) + (listenerHeld s.listener + start.ledger.live)) := by
    rw [hlive,heldBy_append,heldBy_append,heldBy_cons]
    abel
  obtain ⟨w,hw,hwlive⟩ := (hsound y (by simp)).close hlive'
    ((heldBy_closed hrest).add ((listenerHeld_closed h.listening).add start.ledger.closed))
  have hnodup : ((before ++ after).map Prod.fst).Nodup := by
    refine hkeys.sublist ?_
    simp
  refine ⟨{ s with conns := before ++ after, world := w },?_,⟨hwlive,hrest,h.listening,hnodup⟩,?_,
    rfl,rfl⟩
  · rw [closeConn,hfind,Option.bind_some,hw,Option.map_some,herase]
  · rw [SwitchProc.keys,SwitchProc.keys,hsplit]
    simp only [List.map_append,List.map_cons,hkey]
    rw [List.erase_append_right,List.erase_cons_head]
    intro hmem
    obtain ⟨z,hz,hzkey⟩ := List.mem_map.mp hmem
    exact hbefore z hz (by simpa using hzkey)

theorem SwitchProc.Holds.closeListener (h : s.Holds start) (hl : s.listener.isSome = true) :
    ∃ s', INA2A.closeListener s = some s' ∧ s'.Holds start ∧ s'.keys = s.keys ∧
      s'.listener = none ∧ s'.loop = s.loop := by
  obtain ⟨l,hl⟩ := Option.isSome_iff_exists.mp hl
  have hlive : s.world.ledger.live = (l.entries : Multiset (Entry Kind)) +
      (heldBy s.conns + start.ledger.live) := by
    rw [h.live,hl]
    simp only [listenerHeld,Option.map_some,Option.getD_some]
    abel
  obtain ⟨w,hw,hwlive⟩ := (h.listening l hl).close hlive
    ((heldBy_closed h.sound).add start.ledger.closed)
  refine ⟨{ s with listener := none, world := w },?_,⟨?_,h.sound,by simp,h.keys⟩,rfl,rfl,rfl⟩
  · rw [INA2A.closeListener,hl,Option.bind_some,hw,Option.map_some]
  · simpa [listenerHeld] using hwlive

theorem SwitchProc.Holds.closeAll (h : s.Holds start) (cs : List ℕ) :
    ∃ s', INA2A.closeAll cs s = some s' ∧ s'.Holds start ∧
      (∀ c, c ∈ s'.keys ↔ c ∈ s.keys ∧ c ∉ cs) ∧ s'.listener = s.listener ∧ s'.loop = s.loop := by
  induction cs generalizing s with
  | nil => exact ⟨s,rfl,h,by simp,rfl,rfl⟩
  | cons c cs ih =>
    have hone : ∃ s₁, closeIfOpen c s = some s₁ ∧ s₁.Holds start ∧
        (∀ d, d ∈ s₁.keys ↔ d ∈ s.keys ∧ d ≠ c) ∧ s₁.listener = s.listener ∧ s₁.loop = s.loop := by
      rw [closeIfOpen]
      split_ifs with hany
      · have hc : c ∈ s.keys := by simpa [SwitchProc.keys] using hany
        obtain ⟨s₁,hs₁,hholds,hkeys,hlistener,hloop⟩ := h.close hc
        refine ⟨s₁,hs₁,hholds,fun d => ?_,hlistener,hloop⟩
        rw [hkeys,h.keys.mem_erase_iff,and_comm]
      · refine ⟨s,rfl,h,fun d => ⟨fun hd => ⟨hd,?_⟩,And.left⟩,rfl,rfl⟩
        rintro rfl
        exact hany (by simpa [SwitchProc.keys] using hd)
    obtain ⟨s₁,hs₁,hholds,hkeys,hlistener,hloop⟩ := hone
    obtain ⟨s₂,hs₂,hholds₂,hkeys₂,hlistener₂,hloop₂⟩ := ih hholds
    refine ⟨s₂,by rw [INA2A.closeAll,hs₁,Option.bind_some,hs₂],hholds₂,fun d => ?_,
      hlistener₂.trans hlistener,hloop₂.trans hloop⟩
    rw [hkeys₂,hkeys,List.mem_cons]
    tauto

theorem SwitchProc.Holds.heedClosed (h : s.Holds start) {cs : List ℕ} (hcs : s.keys = cs) :
    ∃ s', heedAll (cs.map .closed) s = some s' ∧ s'.Holds start ∧ s'.conns = [] ∧
      s'.listener = s.listener ∧ s'.loop = s.loop := by
  induction cs generalizing s with
  | nil => exact ⟨s,rfl,h,List.map_eq_nil_iff.mp hcs,rfl,rfl⟩
  | cons c cs ih =>
    obtain ⟨s₁,hs₁,hholds,hkeys,hlistener,hloop⟩ := h.close (c:=c) (by rw [hcs]; simp)
    rw [hcs,List.erase_cons_head] at hkeys
    obtain ⟨s₂,hs₂,hholds₂,hnone,hlistener₂,hloop₂⟩ := ih hholds hkeys
    refine ⟨s₂,?_,hholds₂,hnone,hlistener₂.trans hlistener,hloop₂.trans hloop⟩
    rw [List.map_cons,heedAll,heed,hs₁,Option.bind_some,hs₂]

/-- What the switch holds, by the state of the accept loop: while it goes on, the listener and
the connections of the accepted hosts; after exit code 4 nothing; after exit code 5, which closes
only the connection that could not be answered, all the others and the listener. -/
inductive SwitchProc.Phase (s : SwitchProc) : Prop
  | accepting : s.loop.status = .accepting → s.keys = s.loop.acceptedHosts.map HostConn.conn →
      s.listener.isSome = true → Phase s
  | noAccept : s.loop.status = .returned 4 → s.conns = [] → s.listener = none → Phase s
  | noAck : s.loop.status = .returned 5 →
      s.keys = (s.loop.acceptedHosts.map HostConn.conn).dropLast → s.listener.isSome = true → Phase s

variable {numHosts : ℤ} {hello : Option Msg} {ackTs : U64} {ackSent : Bool}

theorem acceptStep_isSome (loop : AcceptLoop) (hgoes : loop.status = .accepting)
    (hmore : loop.i < numHosts) (a : Attempt) : ∃ l, acceptStep numHosts loop a = some l := by
  cases a <;> exact ⟨_,if_pos ⟨hgoes,hmore⟩⟩

theorem acceptConn_connections (loop : AcceptLoop) :
    (acceptConn numHosts loop c hello ackTs ackSent).1.connections = loop.connections := by
  unfold acceptConn
  cases hello with
  | none => rw [AcceptLoop.retry_eq]
  | some m =>
    dsimp only
    split_ifs <;> simp [AcceptLoop.retry_eq,AcceptLoop.increment]

theorem acceptStep_connected {loop : AcceptLoop} {l : AcceptLoop × List AcceptEvent}
    (h : acceptStep numHosts loop (.connected hello ackTs ackSent) = some l) :
    l.1.connections = loop.connections + 1 := by
  simp only [acceptStep] at h
  split_ifs at h
  rw [← Option.some.inj h]
  exact acceptConn_connections _

theorem SwitchProc.Holds.accept (h : s.Holds start) {conn : SrConn} (loop : AcceptLoop)
    (hfull : conn.Full) (hfresh : c ∉ s.keys)
    (hlive : w.ledger.live = (conn.entries : Multiset (Entry Kind)) + s.world.ledger.live) :
    ({ s with loop := loop, conns := s.conns ++ [(c,conn)], world := w } : SwitchProc).Holds start := by
  refine ⟨?_,?_,h.listening,?_⟩
  · simp only [hlive,h.live,heldBy_append,heldBy_cons]
    simp only [heldBy,List.map_nil,List.sum_nil]
    abel
  · intro x hx
    rcases List.mem_append.mp hx with hx | hx
    · exact h.sound x hx
    · rw [List.mem_singleton.mp hx]
      exact hfull.sound
  · simp only [SwitchProc.keys,List.map_append,List.map_singleton]
    exact List.Nodup.append h.keys (List.nodup_singleton c) (by simpa [SwitchProc.keys] using hfresh)

theorem SwitchProc.Holds.attempt (h : s.Holds start) (hello : Option Msg) (ackTs : U64)
    (ackSent : Bool) (hgoes : s.loop.status = .accepting)
    (hkeys : s.keys = s.loop.acceptedHosts.map HostConn.conn) (hl : s.listener.isSome = true)
    (hagree : HostsAgree numHosts s.loop) (hmore : s.loop.i < numHosts) :
    ∃ s', s.attempt numHosts hello ackTs ackSent = some s' ∧ s'.Holds start ∧ s'.Phase ∧
      HostsAgree numHosts s'.loop := by
  obtain ⟨r,hr,hyields⟩ := srAccept_yields s.world
  rw [SwitchProc.attempt,hr,Option.bind_some]
  obtain ⟨l,hstep⟩ := acceptStep_isSome s.loop hgoes hmore
    (if r.1.isNone then .acceptFailed else .connected hello ackTs ackSent)
  rw [hstep,Option.bind_some]
  obtain ⟨-,-,hmove⟩ := acceptStep_move hstep
  have hagree' := hagree.step hmove
  cases hconn : r.1 with
  | none =>
    rw [hconn] at hstep
    simp only [Option.isNone_none,if_true,acceptStep,hgoes,hmore,and_self] at hstep
    obtain rfl := Option.some.inj hstep
    have hsame : ({ s with loop := { s.loop with status := .returned 4 }
                           conns := s.conns ++ ((none : Option SrConn).map fun conn =>
                             (s.loop.connections,conn)).toList
                           world := r.2 } : SwitchProc).Holds start := by
      refine ⟨?_,?_,h.listening,?_⟩
      · simpa [hyields.none hconn] using h.live
      · simpa using h.sound
      · simpa [SwitchProc.keys] using h.keys
    obtain ⟨s₁,hs₁,hholds₁,hkeys₁,hlistener₁,hloop₁⟩ := hsame.closeListener hl
    have hkeys' : s₁.keys = s.loop.acceptedHosts.map HostConn.conn := by
      rw [hkeys₁,← hkeys]
      simp [SwitchProc.keys]
    obtain ⟨s₂,hs₂,hholds₂,hnone₂,hlistener₂,hloop₂⟩ := hholds₁.heedClosed hkeys'
    have hclosed : (s.loop.acceptedHosts.map fun host => AcceptEvent.closed host.conn) =
        (s.loop.acceptedHosts.map HostConn.conn).map .closed := by
      rw [List.map_map]
      rfl
    refine ⟨s₂,?_,hholds₂,.noAccept (by rw [hloop₂,hloop₁]) hnone₂ (hlistener₂.trans hlistener₁),
      by rw [hloop₂,hloop₁]; exact hagree'⟩
    simp only [heedAll,heed,hs₁,Option.bind_some]
    rw [hclosed,hs₂]
  | some conn =>
    obtain ⟨hfull,hlive⟩ := hyields.some conn hconn
    have hfresh : s.loop.connections ∉ s.keys := by
      rw [hkeys]
      intro hmem
      obtain ⟨host,hhost,heq⟩ := List.mem_map.mp hmem
      exact (hagree.older host hhost).ne heq
    have hnew := h.accept l.1 hfull hfresh hlive
    have hnewKeys : ({ s with loop := l.1, conns := s.conns ++ [(s.loop.connections,conn)]
                              world := r.2 } : SwitchProc).keys =
        s.keys ++ [s.loop.connections] := by
      simp [SwitchProc.keys]
    obtain ⟨s₁,hs₁,hholds₁,hkeys₁,hlistener₁,hloop₁⟩ := hnew.close (c:=s.loop.connections)
      (by rw [hnewKeys]; simp)
    have hback : s₁.keys = s.keys := by
      rw [hkeys₁,hnewKeys,List.erase_append_right _ hfresh]
      simp
    have hcount : l.1.connections = s.loop.connections + 1 := by
      rw [hconn] at hstep
      exact acceptStep_connected hstep
    obtain ⟨loop,ev⟩ := l
    simp only [Option.map_some,Option.toList_some] at *
    cases hmove with
    | acceptFailed => simp at hcount
    | rejected =>
      refine ⟨s₁,?_,hholds₁,.accepting (by rw [hloop₁]; exact hgoes) ?_ ?_,by rw [hloop₁]; exact hagree'⟩
      · simp only [heedAll,heed,hs₁,Option.bind_some]
      · rw [hback,hloop₁,hkeys]
      · rw [hlistener₁]
        exact hl
    | registered rank m _ _ _ =>
      refine ⟨_,by simp only [heedAll,heed,Option.bind_some],hnew,.accepting hgoes ?_ hl,hagree'⟩
      rw [hnewKeys,hkeys,List.map_append]
      rfl
    | ackFailed rank _ _ _ =>
      refine ⟨s₁,?_,hholds₁,.noAck (by rw [hloop₁]) ?_ ?_,by rw [hloop₁]; exact hagree'⟩
      · simp only [heedAll,heed,hs₁,Option.bind_some]
      · rw [hback,hloop₁,hkeys,List.map_append,List.map_singleton,List.dropLast_concat]
      · rw [hlistener₁]
        exact hl

theorem SwitchProc.Reached.holds (hr : s.Reached numHosts start) :
    s.Holds start ∧ s.Phase ∧ HostsAgree numHosts s.loop := by
  induction hr with
  | listening listener w hlisten =>
    obtain ⟨r,hr,-,hyields⟩ := srListen_yields start
    obtain rfl := Option.some.inj (hr.symm.trans hlisten)
    obtain ⟨hsound,hlive⟩ := hyields listener rfl
    refine ⟨⟨?_,by simp,?_,by simp [SwitchProc.keys]⟩,.accepting rfl rfl rfl,.initial numHosts⟩
    · rw [hlive]
      simp [heldBy,listenerHeld]
    · intro l hl
      obtain rfl := Option.some.inj hl
      exact hsound
  | attempt s s' hello ackTs ackSent _ hstep ih =>
    obtain ⟨hholds,hphase,hagree⟩ := ih
    have hgoes : s.loop.status = .accepting ∧ s.loop.i < numHosts := by
      obtain ⟨r,-,hrest⟩ := Option.bind_eq_some_iff.mp hstep
      obtain ⟨l,hl,-⟩ := Option.bind_eq_some_iff.mp hrest
      obtain ⟨hgoes,hmore,-⟩ := acceptStep_move hl
      exact ⟨hgoes,hmore⟩
    cases hphase with
    | accepting _ hkeys hl =>
      obtain ⟨t,ht,hall⟩ := hholds.attempt hello ackTs ackSent hgoes.1
        hkeys hl hagree hgoes.2
      obtain rfl := Option.some.inj (ht.symm.trans hstep)
      exact hall
    | noAccept hstatus => simp [hgoes.1] at hstatus
    | noAck hstatus => simp [hgoes.1] at hstatus

/-- What the switch has released on each of its ways out. -/
structure SwitchExits (numHosts : ℤ) (start : World) (s : SwitchProc) : Prop where
  /-- No iteration releases what is not held or is still needed. -/
  goesOn : s.loop.status = .accepting → s.loop.i < numHosts → ∀ hello ackTs ackSent,
    (s.attempt numHosts hello ackTs ackSent).isSome = true
  noAccept : s.loop.status = .returned 4 → s.world.ledger.live = start.ledger.live
  noAck : s.loop.status = .returned 5 →
    s.keys = (s.loop.acceptedHosts.map HostConn.conn).dropLast ∧ s.listener.isSome = true ∧
      s.world.ledger.live = heldBy s.conns + (listenerHeld s.listener + start.ledger.live)
  /-- Whichever connections the readers have closed, and in whatever order. -/
  served : s.loop.status = .accepting → ∀ byReaders, ∃ s', s.finish byReaders = some s' ∧
    s'.world.ledger.live = start.ledger.live

/-- After the accept loop every connection is closed once, by a reader or by `main`, and the
listener last, and nothing is left; a failure to accept leaves nothing either, while a failure
to answer a host leaves the connections of the hosts accepted before and the listener. -/
theorem switchMain_exits (hr : s.Reached numHosts start) : SwitchExits numHosts start s := by
  obtain ⟨hholds,hphase,hagree⟩ := hr.holds
  cases hphase with
  | accepting hgoes hkeys hl =>
    refine ⟨fun _ hmore hello ackTs ackSent => ?_,by simp [hgoes],by simp [hgoes],fun _ byReaders => ?_⟩
    · obtain ⟨s',hs',-⟩ := hholds.attempt hello ackTs ackSent hgoes
        hkeys hl hagree hmore
      rw [hs']
      rfl
    · obtain ⟨s₁,hs₁,hholds₁,hkeys₁,hlistener₁,hloop₁⟩ := hholds.closeAll byReaders
      obtain ⟨s₂,hs₂,hholds₂,hkeys₂,hlistener₂,hloop₂⟩ :=
        hholds₁.closeAll (s₁.loop.acceptedHosts.map HostConn.conn)
      obtain ⟨s₃,hs₃,hholds₃,hkeys₃,hlistener₃,hloop₃⟩ :=
        hholds₂.closeListener (by rw [hlistener₂,hlistener₁]; exact hl)
      have hnone : s₃.conns = [] := by
        have hempty : s₃.keys = [] := by
          rw [hkeys₃]
          refine List.eq_nil_iff_forall_not_mem.mpr fun c hc => ?_
          obtain ⟨hc₁,hout⟩ := (hkeys₂ c).mp hc
          rw [hloop₁,← hkeys] at hout
          exact hout ((hkeys₁ c).mp hc₁).1
        exact List.map_eq_nil_iff.mp hempty
      refine ⟨s₃,?_,?_⟩
      · rw [SwitchProc.finish,hs₁,Option.bind_some,hs₂,Option.bind_some,hs₃]
      · rw [hholds₃.live,hnone,hlistener₃]
        simp [heldBy,listenerHeld]
  | noAccept hstatus hnone hl =>
    refine ⟨by simp [hstatus],fun _ => ?_,by simp [hstatus],by simp [hstatus]⟩
    rw [hholds.live,hnone,hl]
    simp [heldBy,listenerHeld]
  | noAck hstatus hkeys hl =>
    exact ⟨by simp [hstatus],by simp [hstatus],fun _ => ⟨hkeys,hl,hholds.live⟩,by simp [hstatus]⟩

def soloSwitch : Option SwitchProc :=
  (srListen kindWorld).bind fun r => r.1.bind fun listener =>
    (⟨.initial,some listener,[],r.2⟩ : SwitchProc).attempt 1 (some (helloFrom 0)) 0 true

theorem switchMain_exits_sample : ∃ s : SwitchProc, s.keys = [0] ∧ SwitchExits 1 kindWorld s := by
  have hkeys : soloSwitch.map SwitchProc.keys = some [0] := by decide +kernel
  obtain ⟨s,hs,hs0⟩ := Option.map_eq_some_iff.mp hkeys
  obtain ⟨r,hr,hrest⟩ := Option.bind_eq_some_iff.mp hs
  obtain ⟨listener,hlistener,hattempt⟩ := Option.bind_eq_some_iff.mp hrest
  refine ⟨s,hs0,switchMain_exits (.attempt _ s _ _ _ (.listening listener r.2 ?_) hattempt)⟩
  rw [hr,← hlistener]

end INA2A

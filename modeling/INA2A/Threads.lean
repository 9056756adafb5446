import INA2A.Lib.Locking
import INA2A.SwitchSteps
import INA2A.System

/-! The threads of the hosts and of the switch, the mutexes they lock, and what they wait for.
A connection side has one posted receive, which only a read posts again, so each direction of
a connection holds one unread message and an `sr_write` returns once its own may go there. -/
namespace INA2A

open ByteBuffers BitWords EventMachine

variable {N : ℕ}

inductive Part
  | control | compute | send | read
  deriving DecidableEq

instance : Fintype Part where
  elems := {.control,.compute,.send,.read}
  complete q := by cases q <;> decide

/-- The part that gives its name to the thread of a part: a combined loop goes by the last of
the parts it runs. -/
def LoopMode.runs : LoopMode → Part → Part
  | .fourLoops, q => q
  | .ioCombined, .send => .read
  | .ioCombined, q => q
  | .allCombined, _ => .read

inductive Thread (N : ℕ)
  | host (h : Fin N) (q : Part)
  | reader (h : Fin N)
  | main
  deriving DecidableEq, Fintype

/-- All mutexes but the `write_mutex` of a host, which `Switch.writing` accounts for. -/
inductive Mutex (N : ℕ)
  | state (h : Fin N)
  | sendQueue (h : Fin N)
  | computeQueue (h : Fin N)
  | hosts | queue | finish
  deriving DecidableEq

def Config.thread (c : Config N) (h : Fin N) (q : Part) : Thread N :=
  .host h ((c.args h).mode.runs q)

def HostAction.part : HostAction → Part
  | .tick _ _ => .control
  | .push _ => .control
  | .compute _ => .compute
  | .send => .send
  | .read _ => .read

def switchThread : SwitchAction N → Thread N
  | .accept _ => .main
  | .start h => .reader h
  | .reader h _ => .reader h
  | .main => .main

/-- The step that starts a reader counts as the reader's own. -/
def Action.thread (c : Config N) : Action N → Thread N
  | .accept _ => .main
  | .start h => .reader h
  | .host h a => c.thread h a.part
  | .write h => c.thread h .send
  | .receive h => c.thread h .read
  | .reader h _ => .reader h
  | .main => .main

def tickMutex (h : Fin N) (env : HostEnv) (v : Host) : Option (Mutex N) :=
  if v.control.idle then
    match env.mode, v.turn with
    | .allCombined, .control true => none
    | _, _ => some (.state h)
  else none

def pushMutex (h : Fin N) (v : Host) : Option (Mutex N) :=
  match v.control with
  | .pulling (_::_) _ _ => some (.sendQueue h)
  | .pulling [] true _ => some (.state h)
  | .pulling [] false _ => none
  | .admitted (_::_) _ => some (.computeQueue h)
  | .admitted [] (some _) => some (.sendQueue h)
  | .admitted [] none => none

def computeMutex (h : Fin N) (env : HostEnv) (v : Host) : Option (Mutex N) :=
  match v.computing with
  | .top => if env.mode = .allCombined then some (.computeQueue h) else none
  | .popping => some (.computeQueue h)
  | .task (.localAttention _) => some (.state h)
  | .task (.expertMlp _) => none
  | .pushing _ => some (.sendQueue h)
  | .exited => none

def sendMutex (h : Fin N) (env : HostEnv) (v : Host) : Option (Mutex N) :=
  match v.sending with
  | .top =>
    match env.mode, v.turn with
    | .fourLoops, _ => none
    | _, .drain (_ + 1) => some (.sendQueue h)
    | _, _ => none
  | .popping => some (.sendQueue h)
  | _ => none

/-- `shutdown_runtime` closes its two queues one after the other; the first stands for both. -/
def readMutex (h : Fin N) (v : Host) : Option (Mutex N) :=
  match v.reading with
  | .got m =>
    match m.header.kind with
    | some .ack => some (.state h)
    | some .notReady => some (.state h)
    | some .combineResult => some (.state h)
    | some .expertInput => some (.computeQueue h)
    | some .finish => some (.sendQueue h)
    | _ => none
  | _ => none

def hostMutex (h : Fin N) (env : HostEnv) (v : Host) : HostAction → Option (Mutex N)
  | .tick _ _ => if v.mayControl env then tickMutex h env v else none
  | .push _ => if v.mayControl env then pushMutex h v else none
  | .compute _ => if v.mayCompute env then computeMutex h env v else none
  | .send => if v.maySend env then sendMutex h env v else none
  | .read _ => if v.mayRead env then readMutex h v else none

def readerMutex : ReaderPos N → Option (Mutex N)
  | .got m =>
    match m.header.kind with
    | some .expertResult => some .queue
    | some .combinePullReq => some .queue
    | some .finish => some .finish
    | _ => none
  | .looking _ (_::_) _ => some .hosts
  | .looking _ [] _ => some .queue
  | .clearing _ _ _ => some .queue
  | .broadcasting _ [] => some .hosts
  | _ => none

def actionMutex (c : Config N) (s : System N) : Action N → Option (Mutex N)
  | .accept g => if s.switch.hosts g then none else some .hosts
  | .host h a => if s.switch.hosts h then hostMutex h (c.env h) (s.host h) a else none
  | .reader h _ => readerMutex (s.switch.reader h)
  | _ => none

/-- The waits on a condition variable: `pop` on an empty queue, and `wait_for` in `control_loop`. -/
def sleeps (s : System N) : Thread N → Bool
  | .host h .control => (s.host h).control.idle
  | .host h .compute =>
    match (s.host h).computing with
    | .popping => (s.host h).computeQueue.items.isEmpty && !(s.host h).computeQueue.closed
    | _ => false
  | .host h .send =>
    match (s.host h).sending with
    | .popping => (s.host h).sendQueue.items.isEmpty && !(s.host h).sendQueue.closed
    | _ => false
  | _ => false

def Config.sections (c : Config N) : Sections (System N) (Action N) (Thread N) (Mutex N) where
  thread := Action.thread c
  mutex := actionMutex c
  sleeps := sleeps

abbrev Threads (N : ℕ) := LockState (System N) (Thread N) (Mutex N)

abbrev threadMachine (c : Config N) :
    Machine (Threads N) (LockAction (Action N) (Thread N)) (Event N) :=
  locking (systemMachine c) c.sections

/-- An `sr_write` returns only when the receive posted by its peer is free. -/
def oneSlot (s : System N) : Action N → Bool
  | .write h => (s.toSwitch h).isEmpty
  | .reader h _ =>
    match s.switch.writing h, sendTarget h (s.switch.reader h) with
    | some _, some g => (s.toHost g).isEmpty
    | _, _ => true
  | _ => true

/-- Runs of all threads over connections with one posted receive on each side. -/
abbrev ThreadRun (c : Config N) : Threads N → List (Event N) → Prop :=
  RunOn (threadMachine c) fun s a => performs oneSlot s a = true

/-- Blocked in `sr_write`, and the thread that must read. -/
inductive AwaitsRead (c : Config N) (s : System N) : Thread N → Thread N → Prop
  | host (h m) : (s.host h).sending = .writing m → s.toSwitch h ≠ [] →
      AwaitsRead c s (c.thread h .send) (.reader h)
  | reader (r g ts) : s.switch.writing r = some ts →
      sendTarget r (s.switch.reader r) = some g → s.toHost g ≠ [] →
      AwaitsRead c s (.reader r) (c.thread g .read)

/-- Waiting for the `write_mutex` of a host, and the thread inside `sr_write` that holds it. -/
inductive AwaitsWriteMutex (s : System N) : Thread N → Thread N → Prop
  | reader (r u g ts) : s.switch.writing r = none →
      sendTarget r (s.switch.reader r) = some g → s.switch.conn g = true →
      s.switch.writing u = some ts → sendTarget u (s.switch.reader u) = some g →
      AwaitsWriteMutex s (.reader r) (.reader u)

inductive WaitsFor (c : Config N) (s : Threads N) (t u : Thread N) : Prop
  | read : AwaitsRead c s.state t u → WaitsFor c s t u
  | writeMutex : AwaitsWriteMutex s.state t u → WaitsFor c s t u
  | mutex : WaitsForMutex s t u → WaitsFor c s t u

/-- A part of the loops moves only itself, and in `io_combined_loop` the turn belongs to the
thread that sends and reads. -/
structure Keeps (env : HostEnv) (q : Part) (v v' : Host) : Prop where
  control : q ≠ .control → v'.control = v.control
  computing : q ≠ .compute → v'.computing = v.computing
  sending : q ≠ .send → v'.sending = v.sending
  reading : q ≠ .read → v'.reading = v.reading
  turn : env.mode = .ioCombined → q = .control ∨ q = .compute → v'.turn = v.turn

section keeps

variable {g : Fin N} {env : HostEnv} {v v' : Host} {ev : List (Event N)} {ts : U64}

theorem controlTick_keeps (now : ℕ) : Keeps env .control v (controlTick env v now ts) := by
  unfold controlTick
  split <;> constructor <;> simp

theorem tickStep_keeps {now : ℕ} (hs : tickStep env v now ts = some v') :
    Keeps env .control v v' := by
  have hk : Keeps env .control v (controlTick env v now ts) := controlTick_keeps now
  unfold tickStep at hs
  split_ifs at hs
  split at hs <;> obtain rfl := Option.some.inj hs
  · rename_i hmode _
    exact { hk with turn := fun hio => by simp [hmode] at hio }
  · rename_i hmode _
    exact ⟨by simp,by simp,by simp,by simp,fun hio => by simp [hmode] at hio⟩
  · exact hk

theorem controlPush_keeps (hs : controlPush g env v ts = some (v',ev)) :
    Keeps env .control v v' := by
  unfold controlPush at hs
  split at hs
  · dsimp only at hs
    split at hs <;> cases hs <;> constructor <;> simp
  all_goals cases hs
  all_goals constructor <;> simp [tryAdmitRawTokens]

theorem leaveCompute_keeps : Keeps env .compute v (leaveCompute env v) := by
  refine ⟨by simp [leaveCompute],by simp,by simp [leaveCompute],by simp [leaveCompute],?_⟩
  intro hio _
  simp [leaveCompute,hio]

theorem computeStep_keeps (hs : computeStep g env v ts = some (v',ev)) :
    Keeps env .compute v v' := by
  have hleave : Keeps env .compute v (leaveCompute env v) := leaveCompute_keeps
  unfold computeStep at hs
  split at hs
  · split at hs
    · split at hs <;> cases hs
      · exact hleave
      · constructor <;> simp
    · cases hs
      constructor <;> simp
  · split at hs
    · split_ifs at hs
      cases hs
      constructor <;> simp
    · cases hs
      constructor <;> simp
  · split_ifs at hs <;> cases hs
    · unfold processComputeTask
      split
      · split
        · exact hleave
        · constructor <;> simp
      · constructor <;> simp
    · exact hleave
  · cases hs
    exact { hleave with }
  · cases hs

theorem sendStep_keeps (hs : sendStep env v = some v') : Keeps env .send v v' := by
  unfold sendStep at hs
  split at hs
  · split at hs
    · cases hs
      constructor <;> simp
    · split at hs
      · split_ifs at hs <;> cases hs <;> constructor <;> simp
      · cases hs
        constructor <;> simp
      · cases hs
  · split at hs
    · split_ifs at hs
      cases hs
      constructor <;> simp
    · cases hs
      constructor <;> simp
  · cases hs

theorem leaveRead_keeps : Keeps env .read v (leaveRead env v) := by
  unfold leaveRead
  split <;> constructor <;> simp

theorem exitRead_keeps : Keeps env .read v (exitRead env v) := by
  constructor <;> simp [exitRead]

theorem Keeps.trans {w : Host} {q : Part} (h : Keeps env q v v') (h' : Keeps env q v' w) :
    Keeps env q v w where
  control hq := (h'.control hq).trans (h.control hq)
  computing hq := (h'.computing hq).trans (h.computing hq)
  sending hq := (h'.sending hq).trans (h.sending hq)
  reading hq := (h'.reading hq).trans (h.reading hq)
  turn hio hq := (h'.turn hio hq).trans (h.turn hio hq)

theorem updateToken_keeps (idx : U64) (f : TokenWindowState → TokenWindowState) :
    Keeps env .read v (updateToken v idx f) := by
  unfold updateToken
  split <;> constructor <;> simp

theorem handleIncomingMessage_keeps (m : Msg) (now : ℕ) :
    Keeps env .read v (handleIncomingMessage (N:=N) v m now).1 := by
  unfold handleIncomingMessage
  split
  · exact updateToken_keeps _ _
  · constructor <;> simp [pushCompute]
  · exact updateToken_keeps _ _
  · exact updateToken_keeps _ _
  · constructor <;> simp [shutdownRuntime]
  · constructor <;> simp

theorem readStep_keeps {now : ℕ} (hs : readStep env v now = some (v',ev)) :
    Keeps env .read v v' := by
  unfold readStep at hs
  split at hs
  · split at hs <;> cases hs <;> constructor <;> simp
  · split at hs <;> cases hs
    exact leaveRead_keeps
  · rename_i m _
    dsimp only at hs
    have hhandle : Keeps env .read v (handleIncomingMessage (N:=N) v m now).1 :=
      handleIncomingMessage_keeps m now
    split at hs <;> cases hs
    · exact hhandle.trans leaveRead_keeps
    · exact hhandle.trans exitRead_keeps
  · cases hs

theorem hostStep_keeps {a : HostAction} (hs : hostStep g env v a = some (v',ev)) :
    Keeps env a.part v v' := by
  cases hostStep_move hs with
  | tick _ hw => exact tickStep_keeps hw
  | push _ hw => exact controlPush_keeps hw
  | compute _ hw => exact computeStep_keeps hw
  | send _ hw => exact sendStep_keeps hw
  | read _ hw => exact readStep_keeps hw

theorem Keeps.hostMutex {q : Part} {b : HostAction} (hk : Keeps env q v v')
    (hne : env.mode.runs b.part ≠ env.mode.runs q) :
    hostMutex g env v' b = hostMutex g env v b := by
  cases hmode : env.mode with
  | fourLoops =>
    have hpart : q ≠ b.part := by
      rintro rfl
      exact hne rfl
    cases b with
    | tick now ts =>
      simp [INA2A.hostMutex,tickMutex,Host.mayControl,hmode,hk.control hpart]
    | push ts => simp [INA2A.hostMutex,pushMutex,Host.mayControl,hmode,hk.control hpart]
    | compute ts =>
      simp [INA2A.hostMutex,computeMutex,Host.mayCompute,hmode,hk.computing hpart]
    | send => simp [INA2A.hostMutex,sendMutex,Host.maySend,hmode,hk.sending hpart]
    | read now => simp [INA2A.hostMutex,readMutex,Host.mayRead,hmode,hk.reading hpart]
  | ioCombined =>
    have hpart : q ≠ b.part := by
      rintro rfl
      exact hne rfl
    have hturn : b.part = .send ∨ b.part = .read → v'.turn = v.turn := by
      intro hb
      apply hk.turn hmode
      cases q <;> rcases hb with hb | hb <;> simp [hmode,hb,LoopMode.runs] at hne ⊢
    cases b with
    | tick now ts =>
      simp [INA2A.hostMutex,tickMutex,Host.mayControl,hmode,hk.control hpart]
    | push ts => simp [INA2A.hostMutex,pushMutex,Host.mayControl,hmode,hk.control hpart]
    | compute ts =>
      simp [INA2A.hostMutex,computeMutex,Host.mayCompute,hmode,hk.computing hpart]
    | send =>
      simp [INA2A.hostMutex,sendMutex,Host.maySend,hmode,hk.sending hpart,hturn (.inl rfl)]
    | read now =>
      simp [INA2A.hostMutex,readMutex,Host.mayRead,hmode,hk.reading hpart,hturn (.inr rfl)]
  | allCombined => simp [hmode,LoopMode.runs] at hne

end keeps

variable {c : Config N} {s s' : System N} {h : Fin N} {ev : List (Event N)}

theorem systemReader_move {ts : U64} (hs : systemReader s h ts = some (s',ev)) :
    s'.host = s.host ∧ ∃ i ev', ReaderMove s.switch h i s'.switch ev' ∧
      ∀ e ∈ ev, e ∈ ev' ∨ ∃ f, e = .rejected f := by
  have hstep : ∀ {i : ReaderInput} {r : Switch N × List (Event N)} {f : List (Event N)},
      (∀ e ∈ f, ∃ x, e = .rejected x) → readerStep s.switch h i = some r →
      ∃ i ev', ReaderMove s.switch h i r.1 ev' ∧ ∀ e ∈ f ++ r.2, e ∈ ev' ∨ ∃ f, e = .rejected f :=
    fun hf hr => ⟨_,_,readerStep_move hr,fun e he => (List.mem_append.mp he).symm.imp_right (hf e)⟩
  unfold systemReader at hs
  split at hs
  · split at hs
    · dsimp only at hs
      split at hs <;> obtain ⟨r,hr,heq⟩ := Option.map_eq_some_iff.mp hs <;> cases heq
      · exact ⟨rfl,hstep (f:=[.rejected _]) (by simp) hr⟩
      · exact ⟨rfl,hstep (f:=[]) (by simp) hr⟩
    · split_ifs at hs
      obtain ⟨r,hr,heq⟩ := Option.map_eq_some_iff.mp hs
      cases heq
      exact ⟨rfl,hstep (f:=[]) (by simp) hr⟩
  · split at hs
    · split at hs <;> obtain ⟨r,hr,heq⟩ := Option.map_eq_some_iff.mp hs <;> cases heq
      · exact ⟨rfl,hstep (f:=[.rejected _]) (by simp) hr⟩
      · exact ⟨rfl,hstep (f:=[]) (by simp) hr⟩
    · obtain ⟨r,hr,heq⟩ := Option.map_eq_some_iff.mp hs
      cases heq
      exact ⟨rfl,hstep (f:=[]) (by simp) hr⟩

/-- What a step makes of the host whose thread takes it. -/
inductive HostChange (c : Config N) (h : Fin N) (v : Host) :
    Action N → Host → List (Event N) → Prop
  | loop {a w ev} : hostStep h (c.env h) v a = some (w,ev) → HostChange c h v (.host h a) w ev
  | wrote (m : Msg) : HostChange c h v (.write h) (wroteMsg v) [.toSwitch h m]
  | writeFailed (f : Fault) :
      HostChange c h v (.write h) (writeFailed (c.env h) v) [.rejected f]
  | got (m : Msg) : v.mayRead (c.env h) = true →
      HostChange c h v (.receive h) { v with reading := .got m } []
  | readFailed (f : Fault) : v.mayRead (c.env h) = true →
      HostChange c h v (.receive h) (readFailed (c.env h) v) [.rejected f]

inductive SystemMove (c : Config N) (s s' : System N) (a : Action N) (ev : List (Event N)) : Prop
  | host {h v} : HostChange c h (s.host h) a v ev → s'.switch = s.switch →
      s'.host = Function.update s.host h v → SystemMove c s s' a ev
  | switch {b evs} : SwitchMove s.switch b s'.switch evs → s'.host = s.host →
      a.thread c = switchThread b → (∀ e ∈ ev, e ∈ evs ∨ ∃ f, e = .rejected f) →
      SystemMove c s s' a ev

theorem hostWrite_move (hs : hostWrite c s h = some (s',ev)) : SystemMove c s s' (.write h) ev := by
  unfold hostWrite at hs
  split at hs
  · split at hs <;> obtain ⟨rfl,rfl⟩ := Prod.mk.inj (Option.some.inj hs)
    · exact .host (.writeFailed _) rfl rfl
    · exact .host (.wrote _) rfl rfl
  · cases hs

theorem hostReceive_move (hs : hostReceive c s h = some (s',ev)) :
    SystemMove c s s' (.receive h) ev := by
  unfold hostReceive at hs
  split at hs
  · split_ifs at hs with hmay
    dsimp only at hs
    split at hs <;> obtain ⟨rfl,rfl⟩ := Prod.mk.inj (Option.some.inj hs)
    · exact .host (.readFailed _ hmay) rfl rfl
    · exact .host (.got _ hmay) rfl rfl
  · cases hs

theorem systemStep_move {a : Action N} (hs : systemStep c s a = some (s',ev)) :
    SystemMove c s s' a ev := by
  have hswitch : ∀ b : SwitchAction N, a.thread c = switchThread b →
      (switchStep s.switch b).map (fun r => ({ s with switch := r.1 },r.2)) = some (s',ev) →
      SystemMove c s s' a ev := by
    intro b ht hs
    obtain ⟨⟨w,ev'⟩,hr,heq⟩ := Option.map_eq_some_iff.mp hs
    cases heq
    exact .switch (switchStep_move hr) rfl ht fun e he => .inl he
  cases a with
  | accept g => exact hswitch (.accept g) rfl hs
  | start r => exact hswitch (.start r) rfl hs
  | main => exact hswitch .main rfl hs
  | host h a =>
    obtain ⟨v,hr,rfl⟩ := systemStep_host hs
    exact .host (.loop hr) rfl rfl
  | write h => exact hostWrite_move hs
  | receive h => exact hostReceive_move hs
  | reader r ts =>
    obtain ⟨hhost,i,ev',hm,hev⟩ := systemReader_move hs
    exact .switch (.reader r i _ _ hm) hhost rfl hev

theorem systemStep_host_or {a : Action N} (hs : systemStep c s a = some (s',ev)) (g : Fin N) :
    s'.host g = s.host g ∨ HostChange c g (s.host g) a (s'.host g) ev := by
  cases systemStep_move hs with
  | @host h v hc _ hhost =>
    rw [hhost]
    by_cases hg : g = h
    · subst hg
      rw [Function.update_self]
      exact .inr hc
    · exact .inl (Function.update_of_ne hg _ _)
  | switch _ hhost => exact .inl (by rw [hhost])

theorem HostChange.keeps {v w : Host} {a : Action N} (hc : HostChange c h v a w ev) :
    ∃ q, a.thread c = c.thread h q ∧ Keeps (c.env h) q v w := by
  cases hc with
  | loop hr => exact ⟨_,rfl,hostStep_keeps hr⟩
  | wrote m =>
    refine ⟨.send,rfl,?_⟩
    constructor <;> simp [wroteMsg]
  | writeFailed f =>
    refine ⟨.send,rfl,?_⟩
    constructor <;> simp [INA2A.writeFailed,shutdownRuntime]
  | got m _ =>
    refine ⟨.read,rfl,?_⟩
    constructor <;> simp
  | readFailed f _ =>
    refine ⟨.read,rfl,?_⟩
    constructor <;> simp [INA2A.readFailed,exitRead,shutdownRuntime]

/-- What a step leaves alone, given the thread that takes it. -/
structure Undisturbed (c : Config N) (s s' : System N) (t : Thread N) : Prop where
  host : ∀ h, s'.host h = s.host h ∨
    ∃ q, t = c.thread h q ∧ Keeps (c.env h) q (s.host h) (s'.host h)
  reader : ∀ r, t ≠ .reader r → s'.switch.reader r = s.switch.reader r
  accepted : ∀ g, s.switch.hosts g = true → s'.switch.hosts g = true
  accepting : t ≠ .main → s'.switch.hosts = s.switch.hosts

theorem Undisturbed.ofSwitch {b : SwitchAction N} {evs : List (Event N)}
    (hhost : s'.host = s.host) (hm : SwitchMove s.switch b s'.switch evs) :
    Undisturbed c s s' (switchThread b) := by
  refine ⟨fun g => .inl (by rw [hhost]),?_,?_,?_⟩
  all_goals generalize s'.switch = w at hm
  · intro r hr
    cases hm with
    | accept g _ => rfl
    | start h _ _ =>
      have hrh : r ≠ h := fun hrh => hr (by rw [switchThread,hrh])
      simp [hrh]
    | reader h i _ _ hmove => exact hmove.reader_of_ne fun hrh => hr (by rw [switchThread,hrh])
    | main _ _ hmove => rw [hmove.reader]
  · intro g hg
    cases hm with
    | accept g' _ => simp [Function.update_apply,hg]
    | start h _ _ => exact hg
    | reader h i _ _ hmove => rwa [hmove.hosts]
    | main _ _ hmove => rwa [hmove.hosts]
  · intro hmain
    cases hm with
    | accept g _ => exact absurd rfl hmain
    | start h _ _ => rfl
    | reader h i _ _ hmove => exact hmove.hosts
    | main _ _ hmove => exact hmove.hosts

theorem systemStep_undisturbed {a : Action N} (hs : systemStep c s a = some (s',ev)) :
    Undisturbed c s s' (a.thread c) := by
  cases systemStep_move hs with
  | host hc hsw _ =>
    refine ⟨fun g => ?_,fun r _ => by rw [hsw],fun g hg => by rwa [hsw],fun _ => by rw [hsw]⟩
    exact (systemStep_host_or hs g).imp_right HostChange.keeps
  | switch hm hhost ht _ =>
    rw [ht]
    exact .ofSwitch hhost hm

/-- A step of one thread takes no other away from the section it is about to enter. -/
theorem wants_stable {a : Action N} {t : Thread N} {m : Mutex N}
    (hs : systemStep c s a = some (s',ev)) (hne : t ≠ a.thread c)
    (hw : Wants c.sections s t m) : Wants c.sections s' t m := by
  have hu := systemStep_undisturbed hs
  obtain ⟨b,rfl,hb⟩ := hw
  refine ⟨b,rfl,?_⟩
  change actionMutex c s b = some m at hb
  change actionMutex c s' b = some m
  cases b with
  | accept g =>
    rw [actionMutex,hu.accepting (Ne.symm hne)]
    exact hb
  | host h b =>
    simp only [actionMutex] at hb ⊢
    split_ifs at hb with hacc
    rw [if_pos (hu.accepted h hacc)]
    rcases hu.host h with hsame | ⟨q,hq,hk⟩
    · rw [hsame]
      exact hb
    · rw [hk.hostMutex,hb]
      intro hruns
      refine hne ?_
      rw [hq]
      exact congrArg (Thread.host h) hruns
  | reader r ts =>
    rw [actionMutex,hu.reader r (Ne.symm hne)]
    exact hb
  | _ => cases hb

end INA2A

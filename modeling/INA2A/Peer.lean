import INA2A.Forwarding
import INA2A.Lib.Conveyor
import INA2A.Queues
import INA2A.ReplyIndex

/-! One host and whatever is at the other end of its connection: any message may arrive at any
time, the clock may show anything, and any read or write may fail. -/
namespace INA2A

open ByteBuffers BitWords EventMachine

variable {N : ℕ} {g : Fin N}

/-- What happens to a host: a step of its loops, or the return of the `sr_write` or the read
that it is in. -/
inductive PeerAction
  | loop (a : HostAction)
  | wrote
  | writeFails
  | arrives (m : Msg)
  | readFails

inductive Deed
  | admitted (i : ℕ)
  | given (t : ComputeTask)
  | attended (i : ℕ)
  | asked (i : ℕ) (now : ℕ)
  | queued (m : Msg)
  | wrote (m : Msg)
  | handled (m : Msg) (now : ℕ)

def Deed.message : Deed → Option Msg
  | .queued m => some m
  | _ => none

/-- A tick of a running host runs `control_tick`, but for the one that ends the control part of
`all_combined_loop`. -/
def Host.ticks (env : HostEnv) (h : Host) : Bool :=
  match env.mode, h.turn with
  | .allCombined, .control ticked => h.running && !ticked
  | _, _ => h.running

/-- What a push adds to a queue. -/
def BlockingQueue.adds {α : Type} (q : BlockingQueue α) (a : α) : List α :=
  if q.closed then [] else [a]

theorem BlockingQueue.push_adds {α : Type} (q : BlockingQueue α) (a : α) :
    (q.push a).items = q.items ++ q.adds a := (push_items q a).1

def giveDeeds (h : Host) (t : ComputeTask) : List Deed := (h.computeQueue.adds t).map .given

def pushDeeds (env : HostEnv) (h : Host) : List Deed :=
  match h.control with
  | .pulling [] true _ =>
    (admittedIndices env h.windowBase (env.numTokens - h.nextToAdmit) h.nextToAdmit).map .admitted
  | .admitted (i::_) _ => giveDeeds h (.localAttention i)
  | _ => []

def computeDeeds (env : HostEnv) (h : Host) : List Deed :=
  match h.computing with
  | .task (.localAttention i) =>
    if h.running && decide (i < env.numTokens) then [.attended i] else []
  | _ => []

def handleDeeds (h : Host) (m : Msg) : List Deed :=
  if m.header.kind = some .expertInput then giveDeeds h (.expertMlp m) else []

def loopDeeds (env : HostEnv) (h : Host) : HostAction → List Deed
  | .tick now _ => if h.ticks env then (needPull h now).map (.asked · now) else []
  | .push _ => pushDeeds env h
  | .compute _ => computeDeeds env h
  | .send => []
  | .read now =>
    match h.reading with
    | .got m => .handled m now::handleDeeds h m
    | _ => []

def queuedDeed : Event N → Option Deed
  | .enqueued _ m => some (.queued m)
  | _ => none

def peerStep (g : Fin N) (env : HostEnv) (h : Host) : PeerAction → Option (Host × List Deed)
  | .loop a => (hostStep g env h a).map fun r => (r.1,loopDeeds env h a ++ r.2.filterMap queuedDeed)
  | .wrote =>
    match h.sending with
    | .writing m => some (wroteMsg h,[.wrote m])
    | _ => none
  | .writeFails =>
    match h.sending with
    | .writing _ => some (writeFailed env h,[])
    | _ => none
  | .arrives m =>
    match h.reading with
    | .reading => if h.mayRead env then some ({ h with reading := .got m },[]) else none
    | _ => none
  | .readFails =>
    match h.reading with
    | .reading => if h.mayRead env then some (readFailed env h,[]) else none
    | _ => none

def peerMachine (g : Fin N) (env : HostEnv) : Machine Host PeerAction Deed where
  init h := h = Host.initial env
  step := peerStep g env

variable {env : HostEnv} {v v' w : Host} {ts : U64} {ev : List (Event N)} {ds : List Deed}

def Computing.free : Computing → Bool
  | .task _ => false
  | .pushing _ => false
  | _ => true

def Sending.message : Sending → Option Msg
  | .writing m => some m
  | _ => none

def sendDeeds (h : Host) (m : Msg) : List Deed := (h.sendQueue.adds m).map .queued

/-- Every way in which a host may change.  Where its reading stands, and whose turn it is in a
combined loop, may change with it. -/
inductive Does (env : HostEnv) (v : Host) : List Deed → Host → Prop
  | moves (p q k r) : p = v.computing ∨ p.free = true ∧ v.computing.free = true →
      q = v.sending ∨ q.message = none ∧ v.sending.message = none ∧ v.sending ≠ .exited ∧
        (q = .exited ∨ env.mode = .fourLoops) →
      Does env v [] { v with computing := p, sending := q, turn := k, reading := r }
  | ticks (now ts k) : v.running = true → v.control.idle = true →
      Does env v ((needPull v now).map (.asked · now)) { controlTick env v now ts with turn := k }
  | pulls (i rest moved fin token ts) : v.control = .pulling (i::rest) moved fin →
      env.workload[i]? = some token →
      Does env v (sendDeeds v (combinePullMsg env token i ts)) { v with
        control := .pulling rest moved fin
        sendQueue := v.sendQueue.push (combinePullMsg env token i ts) }
  | skips (i rest moved fin) : v.control = .pulling (i::rest) moved fin →
      env.workload[i]? = none → Does env v [] { v with control := .pulling rest moved fin }
  | admits (fin) : v.control = .pulling [] true fin →
      Does env v ((admittedIndices env v.windowBase (env.numTokens - v.nextToAdmit)
        v.nextToAdmit).map .admitted) (tryAdmitRawTokens env v fin)
  | stays (fin) : v.control = .pulling [] false fin →
      Does env v [] { v with control := .admitted [] fin }
  | hands (i tasks fin) : v.control = .admitted (i::tasks) fin →
      Does env v (giveDeeds v (.localAttention i)) { v with
        control := .admitted tasks fin
        computeQueue := v.computeQueue.push (.localAttention i) }
  | finishes (m) : v.control = .admitted [] (some m) →
      Does env v (sendDeeds v m) { v with
        control := .admitted [] none
        sendQueue := v.sendQueue.push m }
  | takes (t rest) : v.computing.free = true → v.computeQueue.items = t::rest →
      Does env v [] { v with
        computeQueue := { v.computeQueue with items := rest }
        computing := .task t }
  | attends (i token ts) : v.computing = .task (.localAttention i) →
      env.workload[i]? = some token → v.running = true →
      Does env v [.attended i] { v with
        tokenStates := updateTokens v.tokenStates [i] fun st =>
          { st with attentionDone := true, dispatchEnqueued := true }
        computing := .pushing (dispatchTokenMsg token i ts) }
  | computes (m ts) : v.computing = .task (.expertMlp m) → v.running = true →
      Does env v [] { v with computing := .pushing (expertResultMsg env m ts) }
  | drops (t k) : v.computing = .task t →
      (v.running = true → ∃ i, t = .localAttention i ∧ env.workload[i]? = none) →
      Does env v [] { v with computing := .top, turn := k }
  | pushes (m k) : v.computing = .pushing m →
      Does env v (sendDeeds v m) { v with
        computing := .top
        turn := k
        sendQueue := v.sendQueue.push m }
  | loads (m rest k) : v.sending.message = none → v.sending ≠ .exited →
      v.running = true ∨ v.sending = .popping → v.sendQueue.items = m::rest →
      Does env v [] { v with
        sendQueue := { v.sendQueue with items := rest }
        sending := .writing m
        turn := k }
  | writes (m) : v.sending = .writing m → Does env v [.wrote m] { v with sending := .top }
  | loses (m) : v.sending = .writing m → Does env v [] (writeFailed env v)
  | hears (m now states k r) : v.reading = .got m → m.header.kind ≠ some .finish →
      states.length = v.tokenStates.length → (∀ j, states[j]? =
        if tokenIndexOf v m.header.globalIdx = some j then
          v.tokenStates[j]?.map (replyWrite m now) else v.tokenStates[j]?) →
      Does env v (.handled m now::handleDeeds v m) { v with
        tokenStates := states
        computeQueue := if m.header.kind = some .expertInput then
          v.computeQueue.push (.expertMlp m) else v.computeQueue
        turn := k
        reading := r }
  | ends (ds : List Deed) (k r) : ds = [] ∨ (∃ m now, ds = [.handled m now] ∧ m.header.kind = some .finish) →
      Does env v ds { shutdownRuntime v with turn := k, reading := r }

theorem pushSend_does {m : Msg} (hs : pushSend g w m = (v',ev)) :
    v' = { w with sendQueue := w.sendQueue.push m } ∧ ev.filterMap queuedDeed = sendDeeds w m := by
  obtain ⟨rfl,rfl⟩ := Prod.mk.inj hs
  refine ⟨rfl,?_⟩
  unfold sendDeeds BlockingQueue.adds
  split_ifs <;> rfl

theorem pushCompute_does {t : ComputeTask} (hs : pushCompute (N:=N) w t = (v',ev)) :
    v' = { w with computeQueue := w.computeQueue.push t } ∧ ev.filterMap queuedDeed = [] := by
  obtain ⟨rfl,rfl⟩ := Prod.mk.inj hs
  refine ⟨rfl,?_⟩
  split_ifs <;> rfl

theorem handleIncoming_quiet (m : Msg) (now : ℕ) :
    (handleIncomingMessage (N:=N) v m now).2.1.filterMap queuedDeed = [] := by
  unfold handleIncomingMessage
  split
  case h_2 => exact (pushCompute_does (w:=v) (t:=.expertMlp m) rfl).2
  all_goals rfl

/-- The loop goes on unless the message is FINISH. -/
theorem handleIncoming_finish {m : Msg} (now : ℕ) (hfin : m.header.kind = some .finish) :
    handleIncomingMessage (N:=N) v m now = (shutdownRuntime v,[],false) := by
  unfold handleIncomingMessage
  rw [hfin]

theorem handleIncoming_goes {m : Msg} (now : ℕ) (hfin : m.header.kind ≠ some .finish) :
    (handleIncomingMessage (N:=N) v m now).2.2 = true := by
  unfold handleIncomingMessage
  split <;> first | rfl | contradiction

theorem handleIncoming_keeps {m : Msg} (now : ℕ) (hfin : m.header.kind ≠ some .finish) :
    (handleIncomingMessage (N:=N) v m now).1 = { v with
      tokenStates := (handleIncomingMessage (N:=N) v m now).1.tokenStates
      computeQueue := if m.header.kind = some .expertInput then
        v.computeQueue.push (.expertMlp m) else v.computeQueue } := by
  have hupdate (i : U64) (f : TokenWindowState → TokenWindowState) :
      updateToken v i f = { v with tokenStates := (updateToken v i f).tokenStates } := by
    unfold updateToken
    split <;> rfl
  unfold handleIncomingMessage
  split
  case h_1 hk => simpa [hk] using hupdate _ _
  case h_2 hk => simp [hk,pushCompute]
  case h_3 hk => simpa [hk] using hupdate _ _
  case h_4 hk => simpa [hk] using hupdate _ _
  case h_5 hk => exact absurd hk hfin
  case h_6 _ hinput _ _ _ => rw [if_neg hinput]

theorem handleIncoming_length (m : Msg) (now : ℕ) :
    (handleIncomingMessage (N:=N) v m now).1.tokenStates.length = v.tokenStates.length := by
  have hupdate (i : U64) (f : TokenWindowState → TokenWindowState) :
      (updateToken v i f).tokenStates.length = v.tokenStates.length := by
    unfold updateToken
    split
    · rfl
    · exact updateTokens_length _ _ _
  unfold handleIncomingMessage
  split
  case h_2 => rfl
  case h_5 => rfl
  case h_6 => rfl
  all_goals exact hupdate _ _

theorem tickStep_does {now : ℕ} (hs : tickStep env v now ts = some v') :
    Does env v (loopDeeds env v (.tick now ts)) v' := by
  have hrest (k : Turn) : Does env v [] { v with turn := k } :=
    .moves v.computing v.sending k v.reading (.inl rfl) (.inl rfl)
  have hstopped (hrun : ¬v.running = true) : controlTick env v now ts = v := if_neg hrun
  unfold tickStep at hs
  split_ifs at hs with hidle
  split at hs <;> obtain rfl := Option.some.inj hs
  · rename_i hmode hturn
    simp only [loopDeeds,Host.ticks,hmode,hturn,Bool.not_false,Bool.and_true]
    split_ifs with hrun
    · exact .ticks now ts _ hrun hidle
    · rw [hstopped hrun]
      exact hrest _
  · rename_i hmode hturn
    simp only [loopDeeds,Host.ticks,hmode,hturn,Bool.not_true,Bool.and_false]
    exact hrest _
  · rename_i hno hyes
    have hticks : v.ticks env = v.running := by
      unfold Host.ticks
      split
      · rename_i ticked hmode hturn
        cases ticked
        · exact absurd hturn (hno hmode)
        · exact absurd hturn (hyes hmode)
      · rfl
    simp only [loopDeeds,hticks]
    split_ifs with hrun
    · exact .ticks now ts (controlTick env v now ts).turn hrun hidle
    · rw [hstopped hrun]
      exact hrest v.turn

theorem controlPush_does (hs : controlPush g env v ts = some (v',ev)) :
    Does env v (pushDeeds env v ++ ev.filterMap queuedDeed) v' := by
  unfold controlPush at hs
  unfold pushDeeds
  split at hs
  · rename_i i pulls moved fin hcontrol
    rw [hcontrol]
    dsimp only at hs ⊢
    split at hs
    · rename_i hnone
      cases hs
      exact .skips i pulls moved fin hcontrol hnone
    · rename_i token htoken
      obtain ⟨rfl,hev⟩ := pushSend_does (Option.some.inj hs)
      rw [hev]
      exact .pulls i pulls moved fin token ts hcontrol htoken
  · rename_i fin hcontrol
    cases hs
    rw [hcontrol]
    simpa using Does.admits fin hcontrol
  · rename_i fin hcontrol
    cases hs
    rw [hcontrol]
    exact .stays fin hcontrol
  · rename_i i tasks fin hcontrol
    obtain ⟨rfl,hev⟩ := pushCompute_does (Option.some.inj hs)
    rw [hcontrol,hev]
    simpa using Does.hands i tasks fin hcontrol
  · rename_i m hcontrol
    obtain ⟨rfl,hev⟩ := pushSend_does (Option.some.inj hs)
    rw [hcontrol,hev]
    exact .finishes m hcontrol
  · cases hs

theorem leaveCompute_does (p : Computing) (hp : v.computing = p) (hfree : p.free = true) :
    Does env v [] (leaveCompute env v) :=
  .moves .top v.sending _ v.reading (.inr ⟨rfl,by rw [hp]; exact hfree⟩) (.inl rfl)

theorem computeStep_does (hs : computeStep g env v ts = some (v',ev)) :
    Does env v (computeDeeds env v ++ ev.filterMap queuedDeed) v' := by
  have hmoves (p : Computing) (hp : p.free = true) (hv : v.computing.free = true) :
      Does env v [] { v with computing := p } :=
    .moves p v.sending v.turn v.reading (.inr ⟨hp,hv⟩) (.inl rfl)
  unfold computeStep at hs
  unfold computeDeeds
  split at hs
  · rename_i htop
    have hfree : v.computing.free = true := by rw [htop]; rfl
    rw [htop]
    split at hs
    · split at hs
      · cases hs
        exact leaveCompute_does _ htop rfl
      · rename_i t rest hitems
        cases hs
        exact .takes t rest hfree hitems
    · cases hs
      exact hmoves _ (by split_ifs <;> rfl) hfree
  · rename_i hpop
    have hfree : v.computing.free = true := by rw [hpop]; rfl
    rw [hpop]
    split at hs
    · split_ifs at hs
      cases hs
      exact hmoves _ rfl hfree
    · rename_i t rest hitems
      cases hs
      exact .takes t rest hfree hitems
  · rename_i t htask
    rw [htask]
    split_ifs at hs with hrun
    · cases t with
      | localAttention i =>
        cases htoken : env.workload[i]? with
        | none =>
          have hlen : ¬i < env.numTokens := by
            rw [HostEnv.numTokens,not_lt]
            exact List.getElem?_eq_none_iff.mp htoken
          simp only [processComputeTask,htoken] at hs
          cases hs
          simpa [hlen,leaveCompute] using Does.drops _ _ htask fun _ => ⟨i,rfl,htoken⟩
        | some token =>
          have hlen : i < env.numTokens := (List.getElem?_eq_some_iff.mp htoken).1
          simp only [processComputeTask,htoken] at hs
          cases hs
          simpa [hlen,hrun] using Does.attends i token ts htask htoken hrun
      | expertMlp m =>
        cases hs
        exact .computes m ts htask hrun
    · cases hs
      have hdrop : Does env v [] (leaveCompute env v) :=
        .drops t _ htask fun htrue => absurd htrue hrun
      cases t with
      | localAttention i => simpa [hrun] using hdrop
      | expertMlp m => exact hdrop
  · rename_i m hpushing
    rw [hpushing]
    obtain ⟨rfl,hev⟩ := pushSend_does (Option.some.inj hs)
    rw [hev]
    exact .pushes m _ hpushing
  · cases hs

theorem sendStep_does (hs : sendStep env v = some v') : Does env v [] v' := by
  have hmoves (q : Sending) (hq : q.message = none) (hv : v.sending.message = none)
      (hexit : v.sending ≠ .exited) (hmode : q = .exited ∨ env.mode = .fourLoops) :
      Does env v [] { v with sending := q } :=
    .moves v.computing q v.turn v.reading (.inl rfl) (.inr ⟨hq,hv,hexit,hmode⟩)
  have hturn (k : Turn) : Does env v [] { v with turn := k } :=
    .moves v.computing v.sending k v.reading (.inl rfl) (.inl rfl)
  unfold sendStep at hs
  split at hs
  · rename_i htop
    have hnone : v.sending.message = none := by rw [htop]; rfl
    have hexit : v.sending ≠ .exited := by rw [htop]; simp
    split at hs
    · rename_i hmode
      cases hs
      exact hmoves _ (by split_ifs <;> rfl) hnone hexit (.inr hmode)
    · split at hs
      · rename_i left m rest hdrain hitems
        split_ifs at hs with hrun <;> cases hs
        · exact .loads m rest _ hnone hexit (.inl hrun) hitems
        · exact hturn .read
      · cases hs
        exact hturn .read
      · cases hs
  · rename_i hpop
    have hnone : v.sending.message = none := by rw [hpop]; rfl
    have hexit : v.sending ≠ .exited := by rw [hpop]; simp
    split at hs
    · split_ifs at hs
      cases hs
      exact hmoves _ rfl hnone hexit (.inl rfl)
    · rename_i m rest hitems
      cases hs
      exact .loads m rest v.turn hnone hexit (.inr hpop) hitems
  · cases hs

theorem readStep_does {now : ℕ} (hs : readStep env v now = some (v',ev)) :
    Does env v (loopDeeds env v (.read now) ++ ev.filterMap queuedDeed) v' := by
  have hmoves (k : Turn) (r : Reading) : Does env v [] { v with turn := k, reading := r } :=
    .moves v.computing v.sending k r (.inl rfl) (.inl rfl)
  unfold readStep at hs
  simp only [loopDeeds]
  split at hs
  · rename_i htop
    rw [htop]
    split at hs <;> cases hs <;> exact hmoves v.turn _
  · rename_i hreading
    simp only [hreading]
    split at hs <;> cases hs
    unfold leaveRead
    split <;> exact hmoves _ _
  · rename_i m hgot
    simp only [hgot]
    obtain ⟨rfl,rfl⟩ := Prod.mk.inj (Option.some.inj hs)
    rw [handleIncoming_quiet,List.append_nil]
    by_cases hfin : m.header.kind = some .finish
    · have hwork : handleDeeds v m = [] := by simp [handleDeeds,hfin]
      rw [handleIncoming_finish now hfin,hwork]
      exact .ends _ _ _ (.inr ⟨m,now,rfl,hfin⟩)
    · rw [if_pos (handleIncoming_goes now hfin),handleIncoming_keeps now hfin]
      unfold leaveRead
      split <;> exact .hears m now _ _ _ hgot hfin (handleIncoming_length m now)
        (handleIncomingMessage_get v m now)
  · cases hs

theorem peerStep_does {a : PeerAction} (hs : peerStep g env v a = some (v',ds)) : Does env v ds v' := by
  cases a with
  | loop a =>
    obtain ⟨⟨w,ev⟩,hstep,heq⟩ := Option.map_eq_some_iff.mp hs
    obtain ⟨rfl,rfl⟩ := Prod.mk.inj heq
    cases hostStep_move hstep with
    | tick _ hw => simpa using tickStep_does hw
    | push _ hw => exact controlPush_does hw
    | compute _ hw => exact computeStep_does hw
    | send _ hw => exact sendStep_does hw
    | read _ hw => exact readStep_does hw
  | wrote =>
    simp only [peerStep] at hs
    split at hs <;> cases hs
    rename_i m hwriting
    exact .writes m hwriting
  | writeFails =>
    simp only [peerStep] at hs
    split at hs <;> cases hs
    rename_i m hwriting
    exact .loses m hwriting
  | arrives m =>
    simp only [peerStep] at hs
    split at hs
    · split_ifs at hs
      cases hs
      exact .moves v.computing v.sending v.turn (.got m) (.inl rfl) (.inl rfl)
    · cases hs
  | readFails =>
    simp only [peerStep] at hs
    split at hs
    · split_ifs at hs
      cases hs
      exact .ends [] _ .exited (.inl rfl)
    · cases hs

/-- The messages that host `h` has queued. -/
def Event.queuedBy (h : Fin N) : Event N → Option Msg
  | .enqueued k m => if k = h then some m else none
  | _ => none

theorem queuedBy_quiet (h : Fin N) (hev : ∀ e ∈ ev, e.isEnqueued = false) :
    ev.filterMap (Event.queuedBy h) = [] := by
  rw [List.filterMap_eq_nil_iff]
  intro e he
  cases e with
  | enqueued k m => exact absurd (hev _ he) (by simp [Event.isEnqueued])
  | _ => rfl

theorem hostStep_own {a : HostAction} (hs : hostStep g env v a = some (v',ev)) :
    ∀ e ∈ ev, e.isEnqueued = true → ∃ m, e = .enqueued g m := by
  have hsend (w : Host) (m : Msg) : ∀ e ∈ (pushSend g w m).2, e.isEnqueued = true →
      ∃ m, e = .enqueued g m := by
    intro e he hq
    simp only [pushSend] at he
    split_ifs at he <;> obtain rfl := List.mem_singleton.mp he
    · cases hq
    · exact ⟨m,rfl⟩
  have hcompute (w : Host) (t : ComputeTask) : ∀ e ∈ (pushCompute (N:=N) w t).2,
      e.isEnqueued = true → ∃ m, e = .enqueued g m := by
    intro e he hq
    simp only [pushCompute] at he
    split_ifs at he
    · obtain rfl := List.mem_singleton.mp he
      cases hq
    · cases he
  cases hostStep_move hs with
  | tick _ _ => simp
  | push _ hw =>
    unfold controlPush at hw
    split at hw
    · dsimp only at hw
      split at hw <;> obtain ⟨-,rfl⟩ := Prod.mk.inj (Option.some.inj hw)
      · simp
      · exact hsend _ _
    · cases hw
      simp
    · cases hw
      simp
    · rename_i i tasks fin _
      obtain ⟨-,rfl⟩ := Prod.mk.inj (Option.some.inj hw)
      exact hcompute { v with control := .admitted tasks fin } (.localAttention i)
    · obtain ⟨-,rfl⟩ := Prod.mk.inj (Option.some.inj hw)
      exact hsend _ _
    · cases hw
  | compute _ hw =>
    unfold computeStep at hw
    split at hw
    · split at hw
      · split at hw <;> cases hw <;> simp
      · cases hw
        simp
    · split at hw
      · split_ifs at hw
        cases hw
        simp
      · cases hw
        simp
    · split_ifs at hw <;> cases hw <;> simp
    · obtain ⟨-,rfl⟩ := Prod.mk.inj (Option.some.inj hw)
      exact hsend _ _
    · cases hw
  | send _ _ => simp
  | read _ hw =>
    intro e he hq
    rw [(readStep_stays hw).2 e he] at hq
    cases hq

theorem queuedBy_own {h : Fin N} (hown : ∀ e ∈ ev, e.isEnqueued = true → ∃ m, e = .enqueued g m) :
    ev.filterMap (Event.queuedBy h) =
      if g = h then (ev.filterMap queuedDeed).filterMap Deed.message else [] := by
  induction ev with
  | nil => simp
  | cons e ev ih =>
    have hrest := ih fun e he => hown e (List.mem_cons_of_mem _ he)
    cases e with
    | enqueued k m =>
      obtain ⟨m',heq⟩ := hown _ List.mem_cons_self rfl
      cases heq
      by_cases hg : g = h
      · simpa [Event.queuedBy,queuedDeed,Deed.message,hg] using hrest
      · simpa [Event.queuedBy,hg] using hrest
    | _ => exact hrest

theorem loopDeeds_message (env : HostEnv) (v : Host) (a : HostAction) :
    (loopDeeds env v a).filterMap Deed.message = [] := by
  have hgive (t : ComputeTask) : (giveDeeds v t).filterMap Deed.message = [] := by
    simp [giveDeeds,Deed.message]
  cases a with
  | tick now ts =>
    simp only [loopDeeds]
    split_ifs <;> simp [Deed.message]
  | push ts =>
    simp only [loopDeeds,pushDeeds]
    split
    · simp [Deed.message]
    · exact hgive _
    · rfl
  | compute ts =>
    simp only [loopDeeds,computeDeeds]
    split
    · split_ifs <;> rfl
    · rfl
  | send => rfl
  | read now =>
    simp only [loopDeeds]
    split
    · simp only [handleDeeds]
      split_ifs
      · exact hgive _
      · rfl
    · rfl

theorem hostWrite_writing {c : Config N} {s : System N} {r : System N × List (Event N)} {h : Fin N}
    (hs : hostWrite c s h = some r) : ∃ m, (s.host h).sending = .writing m := by
  unfold hostWrite at hs
  split at hs
  · rename_i m hwriting
    exact ⟨m,hwriting⟩
  · cases hs

theorem hostReceive_reading {c : Config N} {s : System N} {r : System N × List (Event N)}
    {h : Fin N} (hs : hostReceive c s h = some r) : (s.host h).reading = .reading := by
  unfold hostReceive at hs
  split at hs
  · assumption
  · cases hs

/-- A host in a system is such a host, with the rest of the system for a peer. -/
theorem system_host {c : Config N} {s : System N} {hist : List (Event N)}
    (hr : Run (systemMachine c) s hist) (h : Fin N) :
    ∃ deeds, Run (peerMachine h (c.env h)) (s.host h) deeds ∧
      deeds.filterMap Deed.message = hist.filterMap (Event.queuedBy h) := by
  induction hr with
  | start hinit =>
    obtain rfl := hinit
    exact ⟨[],.start rfl,rfl⟩
  | @next s s' hist ev a hr _ hs ih =>
    obtain ⟨deeds,hrun,hmessages⟩ := ih
    have hstay (hsame : s'.host h = s.host h) (hnone : ev.filterMap (Event.queuedBy h) = []) :
        ∃ deeds, Run (peerMachine h (c.env h)) (s'.host h) deeds ∧
          deeds.filterMap Deed.message = (hist ++ ev).filterMap (Event.queuedBy h) := by
      rw [hsame,List.filterMap_append,hnone,List.append_nil]
      exact ⟨deeds,hrun,hmessages⟩
    have hstep (b : PeerAction) (ds : List Deed)
        (hb : peerStep h (c.env h) (s.host h) b = some (s'.host h,ds))
        (hds : ds.filterMap Deed.message = ev.filterMap (Event.queuedBy h)) :
        ∃ deeds, Run (peerMachine h (c.env h)) (s'.host h) deeds ∧
          deeds.filterMap Deed.message = (hist ++ ev).filterMap (Event.queuedBy h) := by
      refine ⟨deeds ++ ds,hrun.step hb,?_⟩
      rw [List.filterMap_append,List.filterMap_append,hmessages,hds]
    by_cases ha : ∀ k b, a ≠ .host k b
    · have hquiet := queuedBy_quiet h (systemStep_stays ha hs).2
      rcases systemStep_host_or hs h with hsame | hc
      · exact hstay hsame hquiet
      · generalize s'.host h = w at hc hstep
        cases hc with
        | loop _ => exact absurd rfl (ha _ _)
        | wrote m =>
          obtain ⟨m',hwriting⟩ := hostWrite_writing hs
          exact hstep .wrote [.wrote m'] (by simp only [peerStep,hwriting]) rfl
        | writeFailed f =>
          obtain ⟨m',hwriting⟩ := hostWrite_writing hs
          exact hstep .writeFails [] (by simp only [peerStep,hwriting]) rfl
        | got m hmay =>
          have hreading := hostReceive_reading hs
          exact hstep (.arrives m) [] (by simp only [peerStep,hreading,hmay,if_true]) rfl
        | readFailed f hmay =>
          have hreading := hostReceive_reading hs
          exact hstep .readFails [] (by simp only [peerStep,hreading,hmay,if_true]) rfl
    · push Not at ha
      obtain ⟨k,b,rfl⟩ := ha
      obtain ⟨w,hw,rfl⟩ := systemStep_host hs
      have hqueued := queuedBy_own (h:=h) (hostStep_own hw)
      by_cases hk : k = h
      · subst hk
        refine hstep (.loop b) (loopDeeds (c.env k) (s.host k) b ++ ev.filterMap queuedDeed) ?_ ?_
        · simp [peerStep,hw,System.setHost]
        · rw [List.filterMap_append,loopDeeds_message,hqueued,if_pos rfl]
          rfl
      · rw [if_neg hk] at hqueued
        exact hstay (by simp [System.setHost,Ne.symm hk]) hqueued

end INA2A

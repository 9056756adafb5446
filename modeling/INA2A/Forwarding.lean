import INA2A.Shutdown
import INA2A.Threads

/-! The way of a token from its admission to the send queue of its host: tokens are admitted,
computed and sent in the order of their indices, and FINISH is decided once. -/
namespace INA2A

open ByteBuffers BitWords EventMachine

variable {N : ℕ} {c : Config N} {s s' : System N} {p : Progress (Fin N) U64} {h g : Fin N}
  {hist ev : List (Event N)} {v v' : Host} {ts : U64}

def Control.tasks : Control → List ℕ
  | .admitted tasks _ => tasks
  | .pulling _ _ _ => []

def Control.fin : Control → Option Msg
  | .admitted _ fin => fin
  | .pulling _ _ fin => fin

def ComputeTask.attention : ComputeTask → Option ℕ
  | .localAttention i => some i
  | .expertMlp _ => none

def dispatchIndex (m : Msg) : Option ℕ :=
  if m.header.kind = some .dispatchToken then some m.header.globalIdx.toNat else none

def Computing.attention : Computing → List ℕ
  | .task t => t.attention.toList
  | .pushing m => (dispatchIndex m).toList
  | _ => []

/-- The tokens between their admission and the send queue, the furthest first. -/
def Host.pipeline (v : Host) : List ℕ :=
  v.computing.attention ++ v.computeQueue.items.filterMap ComputeTask.attention ++ v.control.tasks

def Event.dispatchBy (h : Fin N) : Event N → Option ℕ
  | .enqueued g m => if g = h then dispatchIndex m else none
  | _ => none

/-- The tokens whose DISPATCH_TOKENs have entered the send queue of `h`, in order. -/
def dispatches (h : Fin N) (hist : List (Event N)) : List ℕ := hist.filterMap (Event.dispatchBy h)

def Event.finishBy (h : Fin N) : Event N → Bool
  | .enqueued g m => decide (g = h ∧ m.header.kind = some .finish)
  | _ => false

theorem dispatches_append (h : Fin N) (hist ev : List (Event N)) :
    dispatches h (hist ++ ev) = dispatches h hist ++ dispatches h ev := by
  simp [dispatches]

/-- What a step of a host does to its tokens between admission and the send queue, and to its
FINISH; it shows nothing of another host. -/
structure Forwards (h : Fin N) (v v' : Host) (ev : List (Event N)) : Prop where
  tokens : ∃ n, v'.nextToAdmit = v.nextToAdmit + n ∧
    dispatches h ev ++ v'.pipeline = v.pipeline ++ List.range' v.nextToAdmit n
  finish : ev.countP (Event.finishBy h) + v'.control.fin.toList.length + v.finishEnqueued.toNat ≤
    v.control.fin.toList.length + v'.finishEnqueued.toNat
  decided : ev.countP (Event.finishBy h) ≤ v.control.fin.toList.length
  others : ∀ g, g ≠ h → dispatches g ev = [] ∧ ev.countP (Event.finishBy g) = 0

def Event.isEnqueued : Event N → Bool
  | .enqueued _ _ => true
  | _ => false

theorem dispatches_of_quiet (hev : ∀ e ∈ ev, e.isEnqueued = false) (h : Fin N) :
    dispatches h ev = [] ∧ ev.countP (Event.finishBy h) = 0 := by
  constructor
  · rw [dispatches,List.filterMap_eq_nil_iff]
    intro e he
    have hq := hev e he
    cases e <;> simp [Event.isEnqueued] at hq <;> rfl
  · rw [List.countP_eq_zero]
    intro e he
    have hq := hev e he
    cases e <;> simp [Event.isEnqueued] at hq <;> simp [Event.finishBy]

theorem Forwards.quiet (hnext : v'.nextToAdmit = v.nextToAdmit) (hpipe : v'.pipeline = v.pipeline)
    (hfin : v'.control.fin = v.control.fin) (hflag : v'.finishEnqueued = v.finishEnqueued)
    (hev : ∀ e ∈ ev, e.isEnqueued = false) : Forwards h v v' ev := by
  have hquiet := dispatches_of_quiet hev
  refine ⟨⟨0,hnext,?_⟩,?_,?_,fun g _ => hquiet g⟩
  · simp [(hquiet h).1,hpipe]
  · simp [(hquiet h).2,hfin,hflag]
  · simp [(hquiet h).2]

theorem Forwards.still (hnext : v'.nextToAdmit = v.nextToAdmit) (hpipe : v'.pipeline = v.pipeline)
    (hfin : v'.control.fin = v.control.fin) (hflag : v'.finishEnqueued = v.finishEnqueued) :
    Forwards h v v' [] :=
  .quiet hnext hpipe hfin hflag (by simp)

theorem Forwards.enqueue {m : Msg} (hnext : v'.nextToAdmit = v.nextToAdmit)
    (hpipe : (dispatchIndex m).toList ++ v'.pipeline = v.pipeline)
    (hfin : (if m.header.kind = some .finish then 1 else 0) + v'.control.fin.toList.length ≤
      v.control.fin.toList.length) (hflag : v'.finishEnqueued = v.finishEnqueued) :
    Forwards h v v' [.enqueued h m] where
  tokens := by
    refine ⟨0,hnext,?_⟩
    rw [← hpipe]
    cases hidx : dispatchIndex m <;> simp [dispatches,Event.dispatchBy,hidx]
  finish := by
    rw [hflag]
    by_cases hm : m.header.kind = some .finish <;> simp [Event.finishBy,hm] at hfin ⊢ <;> omega
  decided := by
    by_cases hm : m.header.kind = some .finish
    · simp [Event.finishBy,hm] at hfin ⊢
      omega
    · simp [Event.finishBy,hm]
  others g hg := by simp [dispatches,Event.dispatchBy,Event.finishBy,Ne.symm hg]

theorem dispatchIndex_dispatch {i : ℕ} (hi : i < c.num h) (ts : U64) :
    dispatchIndex (c.dispatch h i ts) = some i := by
  have hkind : (c.dispatch h i ts).header.kind = some .dispatchToken := rfl
  have hidx : (c.dispatch h i ts).header.globalIdx.toNat = i := index_toNat c hi
  rw [dispatchIndex,if_pos hkind,hidx]

theorem controlTick_forwards (hidle : v.control.idle = true) (env : HostEnv) (now : ℕ) :
    Forwards h v (controlTick env v now ts) [] := by
  have hcontrol : v.control = .admitted [] none := by
    unfold Control.idle at hidle
    split at hidle
    · assumption
    · cases hidle
  unfold controlTick
  split_ifs
  · refine ⟨⟨0,rfl,?_⟩,?_,Nat.zero_le _,fun _ _ => ⟨rfl,rfl⟩⟩
    · simp [dispatches,Host.pipeline,hcontrol,Control.tasks]
    · by_cases hflag : v.finishEnqueued = true
      · simp [hcontrol,Control.fin,hflag]
      · simp only [hcontrol,Control.fin]
        split_ifs <;> simp_all
  · exact .still rfl rfl rfl rfl

theorem tickStep_forwards {env : HostEnv} {now : ℕ} (hs : tickStep env v now ts = some v') :
    Forwards h v v' [] := by
  unfold tickStep at hs
  split_ifs at hs with hidle
  split at hs <;> obtain rfl := Option.some.inj hs
  · have htick : Forwards h v (controlTick env v now ts) [] := controlTick_forwards hidle env now
    exact { htick with }
  · exact .still rfl rfl rfl rfl
  · exact controlTick_forwards hidle env now

theorem Forwards.controlEnqueue {m : Msg} {control : Control} (hidx : dispatchIndex m = none)
    (htasks : control.tasks = v.control.tasks)
    (hfin : (if m.header.kind = some .finish then 1 else 0) + control.fin.toList.length ≤
      v.control.fin.toList.length) (hopen : v.sendQueue.closed = false)
    (hs : pushSend h { v with control := control } m = (v',ev)) : Forwards h v v' ev := by
  simp only [pushSend,hopen,Bool.false_eq_true,if_false] at hs
  obtain ⟨rfl,rfl⟩ := Prod.mk.inj hs
  refine .enqueue rfl ?_ hfin rfl
  simp [hidx,Host.pipeline,htasks]

theorem controlPush_forwards (hf : Follows c s p) (hp : Orderly c.plan p)
    (hs : controlPush h (c.env h) (s.host h) ts = some (v',ev)) :
    Forwards h (s.host h) v' ev := by
  have hrunning : ∀ x : Item N, x ∈ (s.host h).control.items → (∀ m, x ≠ .down m) →
      HostRunning (s.host h) := by
    intro x hx hne
    have hmem : x ∈ items s h := mem_items_of_host (by simp [Host.items,hx])
    exact hf.hostRunning (hf.notMarked hp hmem hne) h
  unfold controlPush at hs
  split at hs
  · rename_i i pulls moved fin hcontrol
    have hrun := hrunning (.chosen i) (by simp [hcontrol,Control.items]) (by simp)
    dsimp only at hs
    split at hs
    · obtain ⟨rfl,rfl⟩ := Prod.mk.inj (Option.some.inj hs)
      exact .still rfl (by simp [Host.pipeline,hcontrol,Control.tasks])
        (by simp [hcontrol,Control.fin]) rfl
    · rename_i token _
      have hkind : (combinePullMsg (c.env h) token i ts).header.kind = some .combinePullReq := rfl
      refine Forwards.controlEnqueue ?_ ?_ ?_ hrun.sendOpen (Option.some.inj hs)
      · simp [dispatchIndex,hkind]
      · simp [hcontrol,Control.tasks]
      · simp [hcontrol,Control.fin,hkind]
  · rename_i fin hcontrol
    obtain ⟨rfl,rfl⟩ := Prod.mk.inj (Option.some.inj hs)
    obtain ⟨n,-,heq,-⟩ := admittedIndices_eq (c.env h) (s.host h).windowBase
      ((c.env h).numTokens - (s.host h).nextToAdmit) (s.host h).nextToAdmit
    rw [env_numTokens] at heq
    refine ⟨⟨n,?_,?_⟩,?_,Nat.zero_le _,fun _ _ => ⟨rfl,rfl⟩⟩
    · simp [tryAdmitRawTokens,heq]
    · simp [tryAdmitRawTokens,heq,dispatches,Host.pipeline,hcontrol,Control.tasks]
    · simp [tryAdmitRawTokens,hcontrol,Control.fin]
  · rename_i fin hcontrol
    obtain ⟨rfl,rfl⟩ := Prod.mk.inj (Option.some.inj hs)
    exact .still rfl (by simp [Host.pipeline,hcontrol,Control.tasks])
      (by simp [hcontrol,Control.fin]) rfl
  · rename_i i tasks fin hcontrol
    have hrun := hrunning (.task i) (by simp [hcontrol,Control.items]) (by simp)
    simp only [pushCompute,hrun.computeOpen,Bool.false_eq_true,if_false,Option.some.injEq,
      Prod.mk.injEq] at hs
    obtain ⟨rfl,rfl⟩ := hs
    refine .still rfl ?_ (by simp [hcontrol,Control.fin]) rfl
    simp [Host.pipeline,BlockingQueue.push,hrun.computeOpen,hcontrol,Control.tasks,
      ComputeTask.attention]
  · rename_i m hcontrol
    have hmem : Item.decided m ∈ items s h :=
      mem_items_of_host (by simp [Host.items,hcontrol,Control.items])
    have hrun := hrunning (.decided m) (by simp [hcontrol,Control.items]) (by simp)
    obtain ⟨stamp,-,rfl⟩ := hf.of_decided hmem
    have hkind : (c.finish h stamp).header.kind = some .finish := rfl
    refine Forwards.controlEnqueue ?_ ?_ ?_ hrun.sendOpen (Option.some.inj hs)
    · simp [dispatchIndex,hkind]
    · simp [hcontrol,Control.tasks]
    · simp [hcontrol,Control.fin,hkind]
  · cases hs

theorem leaveCompute_pipeline (env : HostEnv) (hnone : v.computing.attention = []) :
    (leaveCompute env v).pipeline = v.pipeline := by
  rw [Host.pipeline,Host.pipeline,hnone]
  rfl

theorem compute_pop_pipeline {t : ComputeTask} {rest : List ComputeTask}
    (hnone : v.computing.attention = []) (hq : v.computeQueue.items = t::rest) :
    ({ v with computeQueue := { v.computeQueue with items := rest }, computing := .task t } :
      Host).pipeline = v.pipeline := by
  rw [Host.pipeline,Host.pipeline,hnone,hq]
  cases t <;> rfl

theorem computeStep_forwards (hf : Follows c s p) (hp : Orderly c.plan p)
    (hs : computeStep h (c.env h) (s.host h) ts = some (v',ev)) :
    Forwards h (s.host h) v' ev := by
  have hrunning : ∀ x : Item N, x ∈ (s.host h).computing.items → (∀ m, x ≠ .down m) →
      HostRunning (s.host h) := by
    intro x hx hne
    have hmem : x ∈ items s h := mem_items_of_host (by simp [Host.items,hx])
    exact hf.hostRunning (hf.notMarked hp hmem hne) h
  unfold computeStep at hs
  split at hs
  · rename_i hcomputing
    have hnone : (s.host h).computing.attention = [] := by simp [hcomputing,Computing.attention]
    split at hs
    · split at hs <;> obtain ⟨rfl,rfl⟩ := Prod.mk.inj (Option.some.inj hs)
      · exact .still rfl (leaveCompute_pipeline _ hnone) rfl rfl
      · rename_i t rest hq
        exact .still rfl (compute_pop_pipeline hnone hq) rfl rfl
    · obtain ⟨rfl,rfl⟩ := Prod.mk.inj (Option.some.inj hs)
      refine .still rfl ?_ rfl rfl
      cases (s.host h).running <;> simp [Host.pipeline,hcomputing,Computing.attention]
  · rename_i hcomputing
    have hnone : (s.host h).computing.attention = [] := by simp [hcomputing,Computing.attention]
    split at hs
    · split_ifs at hs
      obtain ⟨rfl,rfl⟩ := Prod.mk.inj (Option.some.inj hs)
      exact .still rfl (by simp [Host.pipeline,hcomputing,Computing.attention]) rfl rfl
    · rename_i t rest hq
      obtain ⟨rfl,rfl⟩ := Prod.mk.inj (Option.some.inj hs)
      exact .still rfl (compute_pop_pipeline hnone hq) rfl rfl
  · rename_i t hcomputing
    have hrun := hrunning (taskItem t) (by simp [hcomputing,Computing.items])
      (by cases t <;> simp [taskItem])
    rw [if_pos hrun.running] at hs
    obtain ⟨rfl,rfl⟩ := Prod.mk.inj (Option.some.inj hs)
    cases t with
    | localAttention i =>
      have hx : Item.task i ∈ items s h :=
        mem_items_of_host (by simp [Host.items,Computing.items,taskItem,hcomputing])
      have hi : i < c.num h := hp.lt_num (by simp [hf.of_task hx])
      simp only [processComputeTask,workload_lt c hi]
      refine .still rfl ?_ rfl rfl
      change (dispatchIndex (c.dispatch h i ts)).toList ++ _ ++ _ = _
      simp [dispatchIndex_dispatch hi,Host.pipeline,hcomputing,Computing.attention,
        ComputeTask.attention]
    | expertMlp m =>
      refine .still rfl ?_ rfl rfl
      have hkind : (expertResultMsg (c.env h) m ts).header.kind = some .expertResult := rfl
      simp [processComputeTask,Host.pipeline,hcomputing,Computing.attention,ComputeTask.attention,
        dispatchIndex,hkind]
  · rename_i m hcomputing
    have hx : Item.hand m ∈ items s h :=
      mem_items_of_host (by simp [Host.items,Computing.items,hcomputing])
    have hrun := hrunning (.hand m) (by simp [hcomputing,Computing.items]) (by simp)
    have hopen : (leaveCompute (c.env h) (s.host h)).sendQueue.closed = false := hrun.sendOpen
    simp only [pushSend,hopen,Bool.false_eq_true,if_false,Option.some.injEq,Prod.mk.injEq] at hs
    obtain ⟨rfl,rfl⟩ := hs
    have hkind : m.header.kind ≠ some .finish := by
      rcases hf.of_hand hx with ⟨i,stamp,-,rfl⟩ | ⟨o,i,stamp,-,rfl⟩
      · have hk : (c.dispatch h i stamp).header.kind = some .dispatchToken := rfl
        simp [hk]
      · have hk : (c.result o i h stamp).header.kind = some .expertResult := rfl
        simp [hk]
    refine .enqueue rfl ?_ (by simp [hkind,leaveCompute]) rfl
    simp [Host.pipeline,leaveCompute,hcomputing,Computing.attention]
  · cases hs

/-- What the parts that neither admit nor compute leave alone. -/
structure Stays (v v' : Host) : Prop where
  base : v'.windowBase = v.windowBase
  next : v'.nextToAdmit = v.nextToAdmit
  control : v'.control = v.control
  finishEnqueued : v'.finishEnqueued = v.finishEnqueued
  pipeline : v'.pipeline = v.pipeline

theorem Stays.refl (v : Host) : Stays v v := ⟨rfl,rfl,rfl,rfl,rfl⟩

theorem Stays.trans {w : Host} (hst : Stays v v') (hst' : Stays v' w) : Stays v w where
  base := hst'.base.trans hst.base
  next := hst'.next.trans hst.next
  control := hst'.control.trans hst.control
  finishEnqueued := hst'.finishEnqueued.trans hst.finishEnqueued
  pipeline := hst'.pipeline.trans hst.pipeline

theorem Stays.forwards (hst : Stays v v') (hev : ∀ e ∈ ev, e.isEnqueued = false) :
    Forwards h v v' ev :=
  .quiet hst.next hst.pipeline (by rw [hst.control]) hst.finishEnqueued hev

theorem sendStep_stays {env : HostEnv} (hs : sendStep env v = some v') : Stays v v' := by
  unfold sendStep at hs
  split at hs
  · split at hs
    · cases hs
      exact ⟨rfl,rfl,rfl,rfl,rfl⟩
    · split at hs
      · split at hs <;> cases hs <;> exact ⟨rfl,rfl,rfl,rfl,rfl⟩
      · cases hs
        exact ⟨rfl,rfl,rfl,rfl,rfl⟩
      · cases hs
  · split at hs
    · split at hs <;> cases hs
      exact ⟨rfl,rfl,rfl,rfl,rfl⟩
    · cases hs
      exact ⟨rfl,rfl,rfl,rfl,rfl⟩
  · cases hs

theorem updateToken_stays (v : Host) (idx : U64) (f : TokenWindowState → TokenWindowState) :
    Stays v (updateToken v idx f) := by
  unfold updateToken
  split <;> exact ⟨rfl,rfl,rfl,rfl,rfl⟩

theorem handleIncomingMessage_stays (v : Host) (m : Msg) (now : ℕ) :
    Stays v (handleIncomingMessage (N:=N) v m now).1 ∧
      ∀ e ∈ (handleIncomingMessage (N:=N) v m now).2.1, e.isEnqueued = false := by
  unfold handleIncomingMessage
  split
  case h_2 =>
    refine ⟨⟨rfl,rfl,rfl,rfl,?_⟩,?_⟩
    · cases hclosed : v.computeQueue.closed <;>
        simp [Host.pipeline,pushCompute,BlockingQueue.push,hclosed,ComputeTask.attention]
    · dsimp only [pushCompute]
      split_ifs <;> simp [Event.isEnqueued]
  case h_5 => exact ⟨⟨rfl,rfl,rfl,rfl,rfl⟩,by simp⟩
  case h_6 => exact ⟨.refl v,by simp [Event.isEnqueued]⟩
  all_goals exact ⟨updateToken_stays _ _ _,by simp⟩

theorem readStep_stays {env : HostEnv} {now : ℕ} (hs : readStep env v now = some (v',ev)) :
    Stays v v' ∧ ∀ e ∈ ev, e.isEnqueued = false := by
  have hleave : ∀ w : Host, Stays w (leaveRead env w) := by
    intro w
    unfold leaveRead
    split <;> exact ⟨rfl,rfl,rfl,rfl,rfl⟩
  unfold readStep at hs
  split at hs
  · split at hs <;> obtain ⟨rfl,rfl⟩ := Prod.mk.inj (Option.some.inj hs) <;>
      exact ⟨⟨rfl,rfl,rfl,rfl,rfl⟩,by simp⟩
  · split at hs
    · cases hs
    · obtain ⟨rfl,rfl⟩ := Prod.mk.inj (Option.some.inj hs)
      exact ⟨hleave v,by simp⟩
  · rename_i m _
    obtain ⟨rfl,rfl⟩ := Prod.mk.inj (Option.some.inj hs)
    obtain ⟨hst,hev⟩ := handleIncomingMessage_stays (N:=N) v m now
    refine ⟨?_,hev⟩
    split_ifs
    · exact hst.trans (hleave _)
    · exact hst.trans ⟨rfl,rfl,rfl,rfl,rfl⟩
  · cases hs

theorem hostStep_forwards (hf : Follows c s p) (hp : Orderly c.plan p) {a : HostAction}
    (hs : hostStep h (c.env h) (s.host h) a = some (v',ev)) : Forwards h (s.host h) v' ev := by
  cases hostStep_move hs with
  | tick _ hw => exact tickStep_forwards hw
  | push _ hw => exact controlPush_forwards hf hp hw
  | compute _ hw => exact computeStep_forwards hf hp hw
  | send _ hw => exact (sendStep_stays hw).forwards (by simp)
  | read _ hw =>
    obtain ⟨hst,hev⟩ := readStep_stays hw
    exact hst.forwards hev

theorem ReaderMove.unqueued {w w' : Switch N} {i : ReaderInput} (hm : ReaderMove w h i w' ev) :
    ∀ e ∈ ev, e.isEnqueued = false := by
  have hafter : ∀ q : ReaderPos N, ∀ e ∈ afterSendEvents q, e.isEnqueued = false := by
    intro q
    unfold afterSendEvents
    split <;> simp [Event.isEnqueued]
  cases hm with
  | create _ m targets _ _ =>
    unfold createSlot
    dsimp only
    split_ifs <;> simp [Event.isEnqueued]
  | clear =>
    unfold clearedEvents
    split
    · simp
    · split_ifs <;> simp [Event.isEnqueued]
  | sendNull => exact hafter _
  | finishWrite ts g ok _ _ =>
    intro e he
    rcases List.mem_append.mp he with he | he
    · split_ifs at he
      · rw [List.mem_singleton.mp he]
        rfl
      · simp at he
    · exact hafter _ e he
  | _ => simp [Event.isEnqueued]

theorem SwitchMove.unqueued {w w' : Switch N} {a : SwitchAction N} (hm : SwitchMove w a w' ev) :
    ∀ e ∈ ev, e.isEnqueued = false := by
  cases hm with
  | accept => simp
  | start => simp
  | reader _ _ _ _ hm => exact hm.unqueued
  | main _ _ hm => cases hm <;> simp [Event.isEnqueued]

theorem systemStep_stays {a : Action N} (ha : ∀ g b, a ≠ .host g b)
    (hs : systemStep c s a = some (s',ev)) :
    (∀ g, Stays (s.host g) (s'.host g)) ∧ ∀ e ∈ ev, e.isEnqueued = false := by
  constructor
  · intro g
    rcases systemStep_host_or hs g with hsame | hc
    · rw [hsame]
      exact .refl _
    · generalize s'.host g = v at hc
      cases hc with
      | loop _ => exact absurd rfl (ha _ _)
      | wrote m => exact ⟨rfl,rfl,rfl,rfl,rfl⟩
      | writeFailed f => exact ⟨rfl,rfl,rfl,rfl,rfl⟩
      | got m _ => exact ⟨rfl,rfl,rfl,rfl,rfl⟩
      | readFailed f _ => exact ⟨rfl,rfl,rfl,rfl,rfl⟩
  · cases systemStep_move hs with
    | host hc _ _ =>
      cases hc with
      | loop _ => exact absurd rfl (ha _ _)
      | _ => simp [Event.isEnqueued]
    | switch hm _ _ hev =>
      intro e he
      rcases hev e he with he' | ⟨f,rfl⟩
      · exact hm.unqueued e he'
      · rfl

theorem systemStep_forwards (hf : Follows c s p) (hp : Orderly c.plan p) {a : Action N}
    (hs : systemStep c s a = some (s',ev)) (g : Fin N) :
    ∃ ev', Forwards g (s.host g) (s'.host g) ev' ∧ dispatches g ev = dispatches g ev' ∧
      ev.countP (Event.finishBy g) = ev'.countP (Event.finishBy g) := by
  by_cases ha : ∀ h b, a ≠ .host h b
  · obtain ⟨hst,hev⟩ := systemStep_stays ha hs
    exact ⟨ev,(hst g).forwards hev,rfl,rfl⟩
  · push Not at ha
    obtain ⟨h,b,rfl⟩ := ha
    obtain ⟨v,hr,rfl⟩ := systemStep_host hs
    have hfwd := hostStep_forwards hf hp hr
    by_cases hg : g = h
    · subst hg
      exact ⟨ev,by simpa [System.setHost] using hfwd,rfl,rfl⟩
    · obtain ⟨hnone,hzero⟩ := hfwd.others g hg
      refine ⟨[],?_,by simpa [dispatches] using hnone,by simpa using hzero⟩
      have hstill : Forwards g (s.host g) (s.host g) [] := (Stays.refl _).forwards (by simp)
      simpa [System.setHost,hg] using hstill

/-- The tokens of a host enter the send queue in the order of their indices, and those admitted
and not there yet are on their way; one FINISH at most is queued or to be queued. -/
theorem run_forwards (hr : Run (systemMachine c) s hist) (h : Fin N) :
    dispatches h hist ++ (s.host h).pipeline = List.range (s.host h).nextToAdmit ∧
      hist.countP (Event.finishBy h) + (s.host h).control.fin.toList.length ≤
        (s.host h).finishEnqueued.toNat := by
  induction hr with
  | start h0 =>
    subst h0
    exact ⟨rfl,le_rfl⟩
  | next hr _ hs ih =>
    obtain ⟨p,hf,hp⟩ := exists_progress hr
    obtain ⟨ev',⟨⟨n,hnext,htokens⟩,hfinish,-,-⟩,hdisp,hcount⟩ := systemStep_forwards hf hp hs h
    obtain ⟨ihtokens,ihfinish⟩ := ih
    constructor
    · rw [dispatches_append,hdisp,List.append_assoc,htokens,← List.append_assoc,ihtokens,hnext,
        List.range_add,List.range'_eq_map_range]
    · rw [List.countP_append,hcount]
      omega

end INA2A

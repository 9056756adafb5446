import INA2A.Forwarding
import INA2A.Peer

/-! What a host promises whatever its peer does: its loops hand tokens and messages on in order,
each at most once, until the runtime is shut down or the connection fails. -/
namespace INA2A

open ByteBuffers BitWords EventMachine Conveyors

variable {N : ℕ} {g : Fin N} {env : HostEnv} {v v' : Host} {hist ds : List Deed} {m : Msg}

def Deed.admission : Deed → Option ℕ
  | .admitted i => some i
  | _ => none

def Deed.task : Deed → Option ComputeTask
  | .given t => some t
  | _ => none

def ComputeTask.input : ComputeTask → Option Msg
  | .localAttention _ => none
  | .expertMlp m => some m

def Deed.handed (d : Deed) : Option ℕ := d.task.bind ComputeTask.attention

def Deed.heard (d : Deed) : Option Msg := d.task.bind ComputeTask.input

/-- The EXPERT_INPUT that was handled. -/
def Deed.input : Deed → Option Msg
  | .handled m _ => if m.header.kind = some .expertInput then some m else none
  | _ => none

def Deed.question : Deed → Option ℕ
  | .asked i _ => some i
  | _ => none

def Deed.messageIn (p : Msg → Bool) (d : Deed) : Option Msg := d.message.filter p

def Deed.frame : Deed → Option Msg
  | .wrote m => some m
  | _ => none

def Msg.ofKind (k : MsgType) (m : Msg) : Bool := decide (m.header.kind = some k)

/-- The message of a computation. -/
def Msg.computed (m : Msg) : Bool := m.ofKind .dispatchToken || m.ofKind .expertResult

/-- `process_local_attention` and `process_expert_mlp`, at some time. -/
def Answers (env : HostEnv) : ComputeTask → Msg → Prop
  | .localAttention i, m =>
    ∃ token ts, env.workload[i]? = some token ∧ m = dispatchTokenMsg token i ts
  | .expertMlp x, m => ∃ ts, m = expertResultMsg env x ts

/-- `enqueue_combine_pull`, at some time. -/
def AsksFor (env : HostEnv) (i : ℕ) (m : Msg) : Prop :=
  ∃ token ts, env.workload[i]? = some token ∧ m = combinePullMsg env token i ts

def Control.pulls : Control → List ℕ
  | .pulling pulls _ _ => pulls
  | .admitted _ _ => []

/-- What the compute part has in hand. -/
def Holds (env : HostEnv) : Computing → List ComputeTask → Prop
  | .task t, hand => hand = [t]
  | .pushing m, hand => ∃ t, hand = [t] ∧ Answers env t m
  | _, hand => hand = []

/-- The loop that sends will not write any more. -/
def Silent (env : HostEnv) (v : Host) : Prop :=
  v.sending = .exited ∨ env.mode ≠ .fourLoops ∧ v.sending = .top ∧ v.running = false

/-- Both queues are closed as soon as the runtime is shut down, and not before. -/
structure OpenWhileRunning (v : Host) : Prop where
  send : v.sendQueue.closed = !v.running
  compute : v.computeQueue.closed = !v.running

theorem OpenWhileRunning.sends (ho : OpenWhileRunning v) (m : Msg) :
    v.sendQueue.adds m = if v.running then [m] else [] := by
  rw [BlockingQueue.adds,ho.send]
  cases v.running <;> rfl

theorem OpenWhileRunning.gives (ho : OpenWhileRunning v) (t : ComputeTask) :
    v.computeQueue.adds t = if v.running then [t] else [] := by
  rw [BlockingQueue.adds,ho.compute]
  cases v.running <;> rfl

theorem Does.openWhileRunning (hd : Does env v ds v') (ho : OpenWhileRunning v) :
    OpenWhileRunning v' := by
  have hpush {α : Type} (q : BlockingQueue α) (a : α) (hq : q.closed = !v.running) :
      (q.push a).closed = !v.running := by rw [(push_items q a).2,hq]
  cases hd with
  | ticks _ _ _ hrun =>
    rw [controlTick,if_pos hrun]
    exact ⟨ho.send,ho.compute⟩
  | pulls => exact ⟨hpush _ _ ho.send,ho.compute⟩
  | hands => exact ⟨ho.send,hpush _ _ ho.compute⟩
  | finishes => exact ⟨hpush _ _ ho.send,ho.compute⟩
  | pushes => exact ⟨hpush _ _ ho.send,ho.compute⟩
  | loses => exact ⟨rfl,rfl⟩
  | hears m =>
    refine ⟨ho.send,?_⟩
    dsimp only
    split_ifs
    · exact hpush _ _ ho.compute
    · exact ho.compute
  | ends => exact ⟨rfl,rfl⟩
  | _ => exact ⟨ho.send,ho.compute⟩

theorem BlockingQueue.eq_of_mem_adds {α : Type} {q : BlockingQueue α} {a b : α}
    (hb : b ∈ q.adds a) : b = a := by
  unfold adds at hb
  split_ifs at hb
  · cases hb
  · exact List.mem_singleton.mp hb

/-- The indices that a host holds are those of tokens, and its messages are of its own making. -/
structure Proper (env : HostEnv) (v : Host) : Prop where
  length : v.tokenStates.length = env.numTokens
  next_le : v.nextToAdmit ≤ env.numTokens
  pulls_lt : ∀ i ∈ v.control.pulls, i < env.numTokens
  tasks_lt : ∀ i ∈ v.control.tasks, i < env.numTokens
  queue_lt : ∀ i, .localAttention i ∈ v.computeQueue.items → i < env.numTokens
  task_lt : ∀ i, v.computing = .task (.localAttention i) → i < env.numTokens
  fin : ∀ m, v.control.fin = some m → ∃ ts, m = hostFinishMsg env ts
  pushing : ∀ m, v.computing = .pushing m → ∃ t, Answers env t m

theorem needPull_lt {i now : ℕ} (hi : i ∈ needPull v now) : i < v.tokenStates.length := by
  obtain ⟨-,hany⟩ := List.mem_filter.mp hi
  obtain ⟨st,hst,-⟩ := (Option.any_eq_true _ _).mp hany
  exact (List.getElem?_eq_some_iff.mp hst).1

theorem needPull_nodup (v : Host) (now : ℕ) : (needPull v now).Nodup :=
  List.Nodup.filter _ List.nodup_range'

theorem admittedIndices_range (env : HostEnv) (v : Host) : ∃ n ≤ env.numTokens - v.nextToAdmit,
    admittedIndices env v.windowBase (env.numTokens - v.nextToAdmit) v.nextToAdmit =
      List.range' v.nextToAdmit n := by
  obtain ⟨n,hn,heq,-⟩ := admittedIndices_eq env v.windowBase (env.numTokens - v.nextToAdmit)
    v.nextToAdmit
  exact ⟨n,hn,heq⟩

theorem Control.of_idle {k : Control} (hk : k.idle = true) : k = .admitted [] none := by
  unfold Control.idle at hk
  split at hk
  · rfl
  · cases hk

theorem Proper.moves (hp : Proper env v) {p : Computing} (q : Sending) (k : Turn) (r : Reading)
    (hfree : p = v.computing ∨ p.free = true) :
    Proper env { v with computing := p, sending := q, turn := k, reading := r } := by
  rcases hfree with rfl | hfree
  · exact { hp with }
  · refine { hp with task_lt := fun i hi => ?_, pushing := fun m hm => ?_ }
    · rw [show p = .task (.localAttention i) from hi] at hfree
      cases hfree
    · rw [show p = .pushing m from hm] at hfree
      cases hfree

theorem Proper.ticks (hp : Proper env v) (now : ℕ) (ts : U64) (k : Turn) (hrun : v.running = true) :
    Proper env { controlTick env v now ts with turn := k } := by
  rw [controlTick,if_pos hrun]
  refine { hp with length := ?_, pulls_lt := ?_, tasks_lt := ?_, fin := ?_ }
  · exact (updateTokens_length _ _ _).trans hp.length
  · intro i hi
    rw [← hp.length]
    exact needPull_lt hi
  · intro i hi
    cases hi
  · intro m hm
    simp only [Control.fin] at hm
    split_ifs at hm
    exact ⟨ts,(Option.some.inj hm).symm⟩

theorem Proper.pulls (hp : Proper env v) {i : ℕ} {rest : List ℕ} {moved : Bool} {fin : Option Msg}
    (q : BlockingQueue Msg) (hcontrol : v.control = .pulling (i::rest) moved fin) :
    Proper env { v with control := .pulling rest moved fin, sendQueue := q } := by
  have hpulls := hp.pulls_lt
  have hfin := hp.fin
  rw [hcontrol] at hpulls hfin
  exact { hp with
    pulls_lt := fun j hj => hpulls j (List.mem_cons_of_mem _ hj)
    tasks_lt := List.forall_mem_nil _
    fin := hfin }

theorem Proper.admits (hp : Proper env v) {fin : Option Msg}
    (hcontrol : v.control = .pulling [] true fin) : Proper env (tryAdmitRawTokens env v fin) := by
  obtain ⟨n,hn,heq⟩ := admittedIndices_range env v
  have hnext := hp.next_le
  have hfin := hp.fin
  rw [hcontrol] at hfin
  unfold tryAdmitRawTokens
  rw [heq]
  refine { hp with length := ?_, next_le := ?_, pulls_lt := ?_, tasks_lt := ?_, fin := hfin }
  · exact (updateTokens_length _ _ _).trans hp.length
  · simp only [List.length_range']
    omega
  · intro i hi
    cases hi
  · intro i hi
    have := List.mem_range'_1.mp hi
    omega

theorem Proper.stays (hp : Proper env v) {fin : Option Msg}
    (hcontrol : v.control = .pulling [] false fin) :
    Proper env { v with control := .admitted [] fin } := by
  have hfin := hp.fin
  rw [hcontrol] at hfin
  exact { hp with
    pulls_lt := List.forall_mem_nil _
    tasks_lt := List.forall_mem_nil _
    fin := hfin }

theorem Proper.hands (hp : Proper env v) {i : ℕ} {tasks : List ℕ} {fin : Option Msg}
    (hcontrol : v.control = .admitted (i::tasks) fin) : Proper env { v with
      control := .admitted tasks fin
      computeQueue := v.computeQueue.push (.localAttention i) } := by
  have htasks := hp.tasks_lt
  have hfin := hp.fin
  rw [hcontrol] at htasks hfin
  refine { hp with
    pulls_lt := List.forall_mem_nil _
    tasks_lt := fun j hj => htasks j (List.mem_cons_of_mem _ hj)
    queue_lt := ?_
    fin := hfin }
  intro j hj
  rw [BlockingQueue.push_adds] at hj
  rcases List.mem_append.mp hj with hj | hj
  · exact hp.queue_lt j hj
  · cases BlockingQueue.eq_of_mem_adds hj
    exact htasks i List.mem_cons_self

theorem Proper.finishes (hp : Proper env v) (q : BlockingQueue Msg) :
    Proper env { v with control := .admitted [] none, sendQueue := q } :=
  { hp with
    pulls_lt := List.forall_mem_nil _
    tasks_lt := List.forall_mem_nil _
    fin := by simp [Control.fin] }

theorem Proper.takes (hp : Proper env v) {t : ComputeTask} {rest : List ComputeTask}
    (hitems : v.computeQueue.items = t::rest) : Proper env { v with
      computeQueue := { v.computeQueue with items := rest }
      computing := .task t } := by
  have hqueue := hp.queue_lt
  rw [hitems] at hqueue
  refine { hp with queue_lt := ?_, task_lt := ?_, pushing := ?_ }
  · exact fun i hi => hqueue i (List.mem_cons_of_mem _ hi)
  · intro i hi
    cases hi
    exact hqueue i List.mem_cons_self
  · intro m hm
    cases hm

theorem Proper.answers (hp : Proper env v) {states : List TokenWindowState} {t : ComputeTask}
    (hlength : states.length = v.tokenStates.length) (ht : Answers env t m) :
    Proper env { v with tokenStates := states, computing := .pushing m } := by
  refine { hp with length := hlength.trans hp.length, task_lt := ?_, pushing := ?_ }
  · intro j hj
    cases hj
  · intro m' hm
    cases hm
    exact ⟨t,ht⟩

theorem Proper.idles (hp : Proper env v) (q : BlockingQueue Msg) (k : Turn) :
    Proper env { v with computing := .top, turn := k, sendQueue := q } :=
  { hp with
    task_lt := by simp
    pushing := by simp }

theorem Proper.hears (hp : Proper env v) {states : List TokenWindowState} (k : Turn) (r : Reading)
    (hlength : states.length = v.tokenStates.length) : Proper env { v with
      tokenStates := states
      computeQueue := if m.header.kind = some .expertInput then
        v.computeQueue.push (.expertMlp m) else v.computeQueue
      turn := k
      reading := r } := by
  refine { hp with length := hlength.trans hp.length, queue_lt := ?_ }
  intro i hi
  dsimp only at hi
  split_ifs at hi
  · rw [BlockingQueue.push_adds] at hi
    rcases List.mem_append.mp hi with hi | hi
    · exact hp.queue_lt i hi
    · cases BlockingQueue.eq_of_mem_adds hi
  · exact hp.queue_lt i hi

theorem Does.proper (hd : Does env v ds v') (hp : Proper env v) : Proper env v' := by
  cases hd with
  | moves p q k r hcomputing => exact hp.moves q k r (hcomputing.imp_right And.left)
  | ticks now ts k hrun => exact hp.ticks now ts k hrun
  | pulls i rest moved fin token ts hcontrol => exact hp.pulls _ hcontrol
  | skips i rest moved fin hcontrol => exact hp.pulls v.sendQueue hcontrol
  | admits fin hcontrol => exact hp.admits hcontrol
  | stays fin hcontrol => exact hp.stays hcontrol
  | hands i tasks fin hcontrol => exact hp.hands hcontrol
  | finishes => exact hp.finishes _
  | takes t rest _ hitems => exact hp.takes hitems
  | attends i token ts _ htoken =>
    exact hp.answers (t:=.localAttention i) (updateTokens_length _ _ _) ⟨token,ts,htoken,rfl⟩
  | computes m ts => exact hp.answers (t:=.expertMlp m) rfl ⟨ts,rfl⟩
  | drops t k => exact hp.idles v.sendQueue k
  | pushes m k => exact hp.idles _ k
  | hears m now states k r _ _ hlength => exact hp.hears k r hlength
  | _ => exact { hp with }

/-- What is queued is written in that order, until the loop that sends gives up. -/
def Writing (env : HostEnv) (hist : List Deed) (v : Host) : Prop :=
  Carried Eq (hist.filterMap Deed.message) (hist.filterMap Deed.frame)
    (v.sending.message.toList ++ v.sendQueue.items) (Silent env v)

theorem filterMap_sendDeeds {α : Type} (f : Deed → Option α) (v : Host) (m : Msg) :
    (sendDeeds v m).filterMap f = (v.sendQueue.adds m).filterMap fun m => f (.queued m) := by
  rw [sendDeeds,List.filterMap_map]
  rfl

theorem filterMap_giveDeeds {α : Type} (f : Deed → Option α) (v : Host) (t : ComputeTask) :
    (giveDeeds v t).filterMap f = (v.computeQueue.adds t).filterMap fun t => f (.given t) := by
  rw [giveDeeds,List.filterMap_map]
  rfl

theorem filterMap_handleDeeds {α : Type} (f : Deed → Option α) (v : Host) (m : Msg) (now : ℕ) :
    (.handled m now::handleDeeds v m).filterMap f = (f (.handled m now)).toList ++
      if m.header.kind = some .expertInput then
        (v.computeQueue.adds (.expertMlp m)).filterMap fun t => f (.given t)
      else [] := by
  rw [List.filterMap_cons,handleDeeds,apply_ite (List.filterMap f),filterMap_giveDeeds]
  cases f (.handled m now) <;> rfl

theorem filterMap_asked {α : Type} (f : Deed → Option α) (l : List ℕ) (now : ℕ) :
    (l.map (Deed.asked · now)).filterMap f = l.filterMap fun i => f (.asked i now) := by
  rw [List.filterMap_map]
  rfl

theorem filterMap_admitted {α : Type} (f : Deed → Option α) (l : List ℕ) :
    (l.map Deed.admitted).filterMap f = l.filterMap fun i => f (.admitted i) := by
  rw [List.filterMap_map]
  rfl

theorem Does.writing (hd : Does env v ds v') (hw : Writing env hist v) :
    Writing env (hist ++ ds) v' := by
  have hsame (hnot : ¬Silent env v) : ¬Silent env v ∧
      v.sending.message.toList ++ v.sendQueue.items =
        v.sending.message.toList ++ v.sendQueue.items := ⟨hnot,rfl⟩
  have hload (m : Msg) : (sendDeeds v m).filterMap Deed.frame = [] ∧ (¬Silent env v →
      ¬Silent env v ∧ v.sending.message.toList ++ (v.sendQueue.push m).items =
        (v.sending.message.toList ++ v.sendQueue.items) ++
          (sendDeeds v m).filterMap Deed.message) := by
    rw [filterMap_sendDeeds,filterMap_sendDeeds,BlockingQueue.push_adds]
    exact ⟨by simp [Deed.frame],fun hnot => ⟨hnot,by simp [Deed.message]⟩⟩
  unfold Writing at hw ⊢
  rw [List.filterMap_append,List.filterMap_append]
  cases hd with
  | moves p q k r _ hq =>
    refine hw.aside rfl rfl ?_
    rcases hq with rfl | ⟨hq,hnone,hexit,hmode⟩
    · exact hsame
    · refine fun hnot => ⟨?_,by simp [hq,hnone]⟩
      rintro (hs | ⟨hne,hs,hrun⟩)
      · exact hexit hs
      · exact hnot (.inl (hmode.resolve_right hne))
  | ticks now ts k hrun =>
    rw [controlTick,if_pos hrun,filterMap_asked,filterMap_asked]
    exact hw.aside (by simp [Deed.message]) (by simp [Deed.frame]) hsame
  | pulls => exact hw.load (hload _).1 (hload _).2
  | admits =>
    rw [filterMap_admitted,filterMap_admitted]
    exact hw.aside (by simp [Deed.message]) (by simp [Deed.frame]) hsame
  | hands =>
    rw [filterMap_giveDeeds,filterMap_giveDeeds]
    exact hw.aside (by simp [Deed.message]) (by simp [Deed.frame]) hsame
  | finishes => exact hw.load (hload _).1 (hload _).2
  | pushes => exact hw.load (hload _).1 (hload _).2
  | loads m rest k hnone hexit hload hitems =>
    refine hw.aside rfl rfl fun _ => ⟨?_,by rw [hnone,hitems]; rfl⟩
    rintro (hs | ⟨-,hs,hrun⟩)
    · exact hexit hs
    · simp [hs,hrun] at hload
  | writes m hwriting =>
    have hnot : ¬Silent env v := by
      rintro (hs | ⟨-,hs,-⟩) <;> simp [hwriting] at hs
    refine hw.next rfl (fun _ => ⟨m,m,?_,rfl,rfl⟩) (fun hs => absurd hs hnot) fun _ => hnot
    rw [hwriting]
    rfl
  | loses m hwriting =>
    have hsilent : Silent env (writeFailed env v) := by
      by_cases hmode : env.mode = .fourLoops
      · exact .inl (by simp [writeFailed,hmode])
      · exact .inr ⟨hmode,by simp [writeFailed,hmode],rfl⟩
    exact hw.aside rfl rfl fun hnot => absurd hsilent hnot
  | hears m now =>
    rw [filterMap_handleDeeds,filterMap_handleDeeds]
    exact hw.aside (by simp [Deed.message]) (by simp [Deed.frame]) hsame
  | ends ds k r hds =>
    have hnone : ds.filterMap Deed.message = [] ∧ ds.filterMap Deed.frame = [] := by
      rcases hds with rfl | ⟨m,now,rfl,-⟩ <;> exact ⟨rfl,rfl⟩
    refine hw.aside hnone.1 hnone.2 fun hnot => ⟨?_,rfl⟩
    exact fun hs => hnot (hs.imp_right fun h => ⟨h.1,h.2.1,rfl⟩)
  | _ => exact hw.aside rfl rfl hsame

/-- The tokens that are chosen for a pull are asked for in that order. -/
def Asking (env : HostEnv) (hist : List Deed) (v : Host) : Prop :=
  Carried (AsksFor env) (hist.filterMap Deed.question)
    (hist.filterMap (Deed.messageIn (Msg.ofKind .combinePullReq))) v.control.pulls (v.running = false)

theorem OpenWhileRunning.sendsIn (ho : OpenWhileRunning v) (p : Msg → Bool) (m : Msg) :
    (sendDeeds v m).filterMap (Deed.messageIn p) = if v.running && p m then [m] else [] := by
  rw [filterMap_sendDeeds,ho.sends]
  cases v.running <;> cases hp : p m <;>
    simp [Deed.messageIn,Deed.message,Option.filter,hp]

theorem Answers.not_pull {t : ComputeTask} {m : Msg} (ha : Answers env t m) :
    m.ofKind .combinePullReq = false := by
  cases t with
  | localAttention i =>
    obtain ⟨token,ts,-,rfl⟩ := ha
    rfl
  | expertMlp x =>
    obtain ⟨ts,rfl⟩ := ha
    rfl

theorem Does.asking (hd : Does env v ds v') (ho : OpenWhileRunning v) (hp : Proper env v)
    (ha : Asking env hist v) : Asking env (hist ++ ds) v' := by
  have hsame (hnot : ¬v.running = false) : ¬v.running = false ∧ v.control.pulls = v.control.pulls :=
    ⟨hnot,rfl⟩
  have hkeep {k l : Control} (hk : v.control = k) (hl : l.pulls = k.pulls)
      (hnot : ¬v.running = false) : ¬v.running = false ∧ l.pulls = v.control.pulls :=
    ⟨hnot,by rw [hk,hl]⟩
  have hother (m : Msg) (hm : m.ofKind .combinePullReq = false) :
      (sendDeeds v m).filterMap (Deed.messageIn (Msg.ofKind .combinePullReq)) = [] := by
    rw [ho.sendsIn,hm]
    simp
  have hnone (m : Msg) : (sendDeeds v m).filterMap Deed.question = [] := by
    rw [filterMap_sendDeeds]
    simp [Deed.question]
  unfold Asking at ha ⊢
  rw [List.filterMap_append,List.filterMap_append]
  cases hd with
  | ticks now ts k hrun hidle =>
    rw [controlTick,if_pos hrun,filterMap_asked,filterMap_asked]
    refine ha.load (by simp [Deed.messageIn,Deed.message]) fun hnot => ⟨hnot,?_⟩
    rw [Control.of_idle hidle]
    simp [Deed.question,Control.pulls]
  | pulls i rest moved fin token ts hcontrol htoken =>
    refine ha.next (hnone _) ?_ ?_ id
    · intro hrun
      refine ⟨i,_,by rw [hcontrol]; rfl,⟨token,ts,htoken,rfl⟩,?_⟩
      rw [ho.sendsIn,Bool.eq_true_of_not_eq_false hrun]
      rfl
    · intro hrun
      rw [ho.sendsIn,hrun]
      rfl
  | skips i rest moved fin hcontrol hnone =>
    have hlt := hp.pulls_lt i (by rw [hcontrol]; exact List.mem_cons_self)
    rw [List.getElem?_eq_none_iff] at hnone
    exact absurd hlt (not_lt.mpr hnone)
  | admits fin hcontrol =>
    rw [filterMap_admitted,filterMap_admitted]
    exact ha.aside (by simp [Deed.question]) (by simp [Deed.messageIn,Deed.message])
      (hkeep hcontrol rfl)
  | stays fin hcontrol =>
    exact ha.aside rfl rfl (hkeep hcontrol rfl)
  | hands i tasks fin hcontrol =>
    rw [filterMap_giveDeeds,filterMap_giveDeeds]
    exact ha.aside (by simp [Deed.question]) (by simp [Deed.messageIn,Deed.message])
      (hkeep hcontrol rfl)
  | finishes m hcontrol =>
    obtain ⟨ts,rfl⟩ := hp.fin m (by rw [hcontrol]; rfl)
    exact ha.aside (hnone _) (hother _ rfl) (hkeep hcontrol rfl)
  | pushes m k hpushing =>
    obtain ⟨t,ht⟩ := hp.pushing m hpushing
    exact ha.aside (hnone m) (hother m ht.not_pull) hsame
  | loses => exact ha.aside rfl rfl fun hnot => absurd rfl hnot
  | hears m now =>
    rw [filterMap_handleDeeds,filterMap_handleDeeds]
    exact ha.aside (by simp [Deed.question]) (by simp [Deed.messageIn,Deed.message]) hsame
  | ends ds k r hds =>
    have hnone : ds.filterMap Deed.question = [] ∧
        ds.filterMap (Deed.messageIn (Msg.ofKind .combinePullReq)) = [] := by
      rcases hds with rfl | ⟨m,now,rfl,-⟩ <;> exact ⟨rfl,rfl⟩
    exact ha.aside hnone.1 hnone.2 fun hnot => absurd rfl hnot
  | _ => exact ha.aside rfl rfl hsame

/-- The tokens admitted are handed to the compute queue in that order. -/
def Handing (hist : List Deed) (v : Host) : Prop :=
  Carried Eq (hist.filterMap Deed.admission) (hist.filterMap Deed.handed) v.control.tasks
    (v.running = false)

theorem handing_none : (sendDeeds v m).filterMap Deed.admission = [] ∧
    (sendDeeds v m).filterMap Deed.handed = [] := by
  rw [filterMap_sendDeeds,filterMap_sendDeeds]
  simp [Deed.admission,Deed.handed,Deed.task]

theorem Does.handing (hd : Does env v ds v') (ho : OpenWhileRunning v)
    (hh : Handing hist v) : Handing (hist ++ ds) v' := by
  have hsame (hnot : ¬v.running = false) : ¬v.running = false ∧ v.control.tasks = v.control.tasks :=
    ⟨hnot,rfl⟩
  have hkeep {k l : Control} (hk : v.control = k) (hl : l.tasks = k.tasks)
      (hnot : ¬v.running = false) : ¬v.running = false ∧ l.tasks = v.control.tasks :=
    ⟨hnot,by rw [hk,hl]⟩
  unfold Handing at hh ⊢
  rw [List.filterMap_append,List.filterMap_append]
  cases hd with
  | ticks now ts k hrun hidle =>
    rw [controlTick,if_pos hrun,filterMap_asked,filterMap_asked]
    exact hh.aside (by simp [Deed.admission]) (by simp [Deed.handed,Deed.task])
      (hkeep (Control.of_idle hidle) rfl)
  | pulls i rest moved fin token ts hk =>
    exact hh.aside handing_none.1 handing_none.2 (hkeep hk rfl)
  | skips i rest moved fin hk =>
    exact hh.aside rfl rfl (hkeep hk rfl)
  | admits fin hk =>
    rw [filterMap_admitted,filterMap_admitted]
    refine hh.load (by simp [Deed.handed,Deed.task]) fun hnot => ⟨hnot,?_⟩
    rw [hk]
    simp [Deed.admission,tryAdmitRawTokens,Control.tasks]
  | stays fin hk =>
    exact hh.aside rfl rfl (hkeep hk rfl)
  | hands i tasks fin hk =>
    rw [filterMap_giveDeeds,filterMap_giveDeeds,ho.gives]
    refine hh.next (by simp [Deed.admission]) ?_ ?_ id
    · intro hrun
      refine ⟨i,i,by rw [hk]; rfl,rfl,?_⟩
      rw [Bool.eq_true_of_not_eq_false hrun]
      rfl
    · intro hrun
      rw [hrun]
      rfl
  | finishes m hk =>
    exact hh.aside handing_none.1 handing_none.2 (hkeep hk rfl)
  | pushes => exact hh.aside handing_none.1 handing_none.2 hsame
  | loses => exact hh.aside rfl rfl fun hnot => absurd rfl hnot
  | hears m now =>
    rw [filterMap_handleDeeds,filterMap_handleDeeds,ho.gives]
    exact hh.aside (by simp [Deed.admission]) (by split_ifs <;> rfl) hsame
  | ends ds k r hds =>
    have hnone : ds.filterMap Deed.admission = [] ∧ ds.filterMap Deed.handed = [] := by
      rcases hds with rfl | ⟨m,now,rfl,-⟩ <;> exact ⟨rfl,rfl⟩
    exact hh.aside hnone.1 hnone.2 fun hnot => absurd rfl hnot
  | _ => exact hh.aside rfl rfl hsame

/-- The experts' inputs go to the compute queue as they are handled. -/
def Hearing (hist : List Deed) (v : Host) : Prop :=
  Carried Eq (hist.filterMap Deed.input) (hist.filterMap Deed.heard) [] (v.running = false)

theorem Does.hearing (hd : Does env v ds v') (ho : OpenWhileRunning v)
    (hh : Hearing hist v) : Hearing (hist ++ ds) v' := by
  have hsame (hnot : ¬v.running = false) : ¬v.running = false ∧ ([] : List Msg) = [] := ⟨hnot,rfl⟩
  have hsend (m : Msg) : (sendDeeds v m).filterMap Deed.input = [] ∧
      (sendDeeds v m).filterMap Deed.heard = [] := by
    rw [filterMap_sendDeeds,filterMap_sendDeeds]
    simp [Deed.input,Deed.heard,Deed.task]
  unfold Hearing at hh ⊢
  rw [List.filterMap_append,List.filterMap_append]
  cases hd with
  | ticks now ts k hrun =>
    rw [controlTick,if_pos hrun,filterMap_asked,filterMap_asked]
    exact hh.aside (by simp [Deed.input]) (by simp [Deed.heard,Deed.task]) hsame
  | pulls => exact hh.aside (hsend _).1 (hsend _).2 hsame
  | admits =>
    rw [filterMap_admitted,filterMap_admitted]
    exact hh.aside (by simp [Deed.input]) (by simp [Deed.heard,Deed.task]) hsame
  | hands =>
    rw [filterMap_giveDeeds,filterMap_giveDeeds,ho.gives]
    exact hh.aside (by simp [Deed.input]) (by split_ifs <;> rfl) hsame
  | finishes => exact hh.aside (hsend _).1 (hsend _).2 hsame
  | pushes => exact hh.aside (hsend _).1 (hsend _).2 hsame
  | loses => exact hh.aside rfl rfl fun hnot => absurd rfl hnot
  | hears m now =>
    by_cases hinput : m.header.kind = some .expertInput
    · have hin : (Deed.handled m now::handleDeeds v m).filterMap Deed.input = [m] := by
        rw [filterMap_handleDeeds]
        simp [Deed.input,hinput]
      rw [hin,filterMap_handleDeeds,if_pos hinput,ho.gives]
      refine hh.through (x:=m) ?_ ?_
      · intro hrun
        exact ⟨m,rfl,by rw [Bool.eq_true_of_not_eq_false hrun]; rfl⟩
      · intro hrun
        rw [hrun]
        rfl
    · rw [filterMap_handleDeeds,filterMap_handleDeeds]
      exact hh.aside (by simp [Deed.input,hinput]) (by simp [hinput,Deed.heard,Deed.task]) hsame
  | ends ds k r hds =>
    have hnone : ds.filterMap Deed.input = [] ∧ ds.filterMap Deed.heard = [] := by
      rcases hds with rfl | ⟨m,now,rfl,hfin⟩
      · exact ⟨rfl,rfl⟩
      · simp [Deed.input,hfin,Deed.heard,Deed.task]
    exact hh.aside hnone.1 hnone.2 fun hnot => absurd rfl hnot
  | _ => exact hh.aside rfl rfl hsame

/-- One thread does the tasks in the order in which they were given. -/
def Working (env : HostEnv) (hist : List Deed) (v : Host) : Prop :=
  ∃ hand, Holds env v.computing hand ∧ Carried (Answers env) (hist.filterMap Deed.task)
    (hist.filterMap (Deed.messageIn Msg.computed)) (hand ++ v.computeQueue.items)
    (v.running = false)

theorem holds_of_free {p : Computing} {hand : List ComputeTask} (hp : p.free = true) :
    Holds env p hand ↔ hand = [] := by
  cases p with
  | task t => cases hp
  | pushing m => cases hp
  | _ => rfl

theorem Answers.computed {t : ComputeTask} (ha : Answers env t m) : m.computed = true := by
  cases t with
  | localAttention i =>
    obtain ⟨token,ts,-,rfl⟩ := ha
    rfl
  | expertMlp x =>
    obtain ⟨ts,rfl⟩ := ha
    rfl

theorem Does.working (hd : Does env v ds v') (ho : OpenWhileRunning v) (hp : Proper env v)
    (hw : Working env hist v) : Working env (hist ++ ds) v' := by
  have hother (m : Msg) (hm : m.computed = false) :
      (sendDeeds v m).filterMap (Deed.messageIn Msg.computed) = [] := by
    rw [ho.sendsIn,hm]
    simp
  have hnone (m : Msg) : (sendDeeds v m).filterMap Deed.task = [] := by
    rw [filterMap_sendDeeds]
    simp [Deed.task]
  obtain ⟨hand,hhand,hw⟩ := hw
  have hsame (hnot : ¬v.running = false) : ¬v.running = false ∧
      hand ++ v.computeQueue.items = hand ++ v.computeQueue.items := ⟨hnot,rfl⟩
  unfold Working
  rw [List.filterMap_append,List.filterMap_append]
  cases hd with
  | moves p q k r hp =>
    rcases hp with rfl | ⟨hfree,hfree'⟩
    · exact ⟨hand,hhand,hw.aside rfl rfl hsame⟩
    · rw [holds_of_free hfree'] at hhand
      exact ⟨hand,(holds_of_free hfree).mpr hhand,hw.aside rfl rfl hsame⟩
  | ticks now ts k hrun =>
    rw [controlTick,if_pos hrun,filterMap_asked,filterMap_asked]
    exact ⟨hand,hhand,hw.aside (by simp [Deed.task]) (by simp [Deed.messageIn,Deed.message]) hsame⟩
  | pulls => exact ⟨hand,hhand,hw.aside (hnone _) (hother _ rfl) hsame⟩
  | admits =>
    rw [filterMap_admitted,filterMap_admitted]
    exact ⟨hand,hhand,hw.aside (by simp [Deed.task]) (by simp [Deed.messageIn,Deed.message]) hsame⟩
  | hands i tasks fin hcontrol =>
    rw [filterMap_giveDeeds,filterMap_giveDeeds]
    refine ⟨hand,hhand,hw.load (by simp [Deed.messageIn,Deed.message]) fun hnot => ⟨hnot,?_⟩⟩
    simp [BlockingQueue.push_adds,Deed.task]
  | finishes m hcontrol =>
    obtain ⟨ts,rfl⟩ := hp.fin m (by rw [hcontrol]; rfl)
    exact ⟨hand,hhand,hw.aside (hnone _) (hother _ rfl) hsame⟩
  | takes t rest hfree hitems =>
    obtain rfl := (holds_of_free hfree).mp hhand
    refine ⟨[t],rfl,hw.aside rfl rfl fun hnot => ⟨hnot,?_⟩⟩
    rw [hitems]
    rfl
  | attends i token ts htask htoken =>
    rw [htask] at hhand
    exact ⟨hand,⟨_,hhand,token,ts,htoken,rfl⟩,hw.aside rfl rfl hsame⟩
  | computes m ts htask =>
    rw [htask] at hhand
    exact ⟨hand,⟨_,hhand,ts,rfl⟩,hw.aside rfl rfl hsame⟩
  | drops t k htask hmissing =>
    refine ⟨[],rfl,hw.aside rfl rfl fun hnot => ?_⟩
    obtain ⟨i,rfl,hi⟩ := hmissing (Bool.eq_true_of_not_eq_false hnot)
    exact absurd (hp.task_lt i htask) (not_lt.mpr (List.getElem?_eq_none_iff.mp hi))
  | pushes m k hpushing =>
    rw [hpushing] at hhand
    obtain ⟨t,rfl,ht⟩ := hhand
    refine ⟨[],rfl,hw.next (hnone m) (fun hrun => ⟨t,m,rfl,ht,?_⟩) (fun hrun => ?_) id⟩
    · rw [ho.sendsIn,Bool.eq_true_of_not_eq_false hrun,ht.computed]
      rfl
    · rw [ho.sendsIn,hrun]
      rfl
  | loses => exact ⟨hand,hhand,hw.aside rfl rfl fun hnot => absurd rfl hnot⟩
  | hears m now =>
    rw [filterMap_handleDeeds,filterMap_handleDeeds]
    refine ⟨hand,hhand,hw.load (by simp [Deed.messageIn,Deed.message]) fun hnot => ⟨hnot,?_⟩⟩
    by_cases hinput : m.header.kind = some .expertInput
    · simp [hinput,BlockingQueue.push_adds,Deed.task]
    · simp [hinput,Deed.task]
  | ends ds k r hds =>
    have hnone : ds.filterMap Deed.task = [] ∧
        ds.filterMap (Deed.messageIn Msg.computed) = [] := by
      rcases hds with rfl | ⟨m,now,rfl,-⟩ <;> exact ⟨rfl,rfl⟩
    exact ⟨hand,hhand,hw.aside hnone.1 hnone.2 fun hnot => absurd rfl hnot⟩
  | _ => exact ⟨hand,hhand,hw.aside rfl rfl hsame⟩

theorem Does.admission (hd : Does env v ds v')
    (ha : hist.filterMap Deed.admission = List.range v.nextToAdmit) :
    (hist ++ ds).filterMap Deed.admission = List.range v'.nextToAdmit := by
  rw [List.filterMap_append,ha]
  cases hd with
  | ticks now ts k hrun =>
    rw [controlTick,if_pos hrun,filterMap_asked]
    simp [Deed.admission]
  | admits fin =>
    obtain ⟨n,-,heq⟩ := admittedIndices_range env v
    simp only [tryAdmitRawTokens,heq,filterMap_admitted,List.length_range']
    rw [List.range_eq_range',List.range_eq_range']
    simpa [Deed.admission] using List.range'_append_1 (s:=0) (m:=v.nextToAdmit) (n:=n)
  | hands =>
    rw [filterMap_giveDeeds]
    simp [Deed.admission]
  | pulls | finishes | pushes =>
    rw [handing_none.1]
    simp
  | hears m now =>
    rw [filterMap_handleDeeds]
    simp [Deed.admission]
  | ends ds k r hds =>
    rcases hds with rfl | ⟨m,now,rfl,-⟩ <;> exact List.append_nil _
  | _ => exact List.append_nil _

structure Orderliness (env : HostEnv) (hist : List Deed) (v : Host) : Prop where
  opened : OpenWhileRunning v
  proper : Proper env v
  admission : hist.filterMap Deed.admission = List.range v.nextToAdmit
  writing : Writing env hist v
  asking : Asking env hist v
  handing : Handing hist v
  hearing : Hearing hist v
  working : Working env hist v

theorem orderliness_initial (env : HostEnv) : Orderliness env [] (Host.initial env) where
  opened := ⟨rfl,rfl⟩
  proper := by
    constructor <;> simp [Host.initial,Control.pulls,Control.tasks,Control.fin,BlockingQueue.empty]
  admission := rfl
  writing := .start _ _
  asking := .start _ _
  handing := .start _ _
  hearing := .start _ _
  working := ⟨[],rfl,.start _ _⟩

theorem Does.orderliness (hd : Does env v ds v') (ho : Orderliness env hist v) :
    Orderliness env (hist ++ ds) v' where
  opened := hd.openWhileRunning ho.opened
  proper := hd.proper ho.proper
  admission := hd.admission ho.admission
  writing := hd.writing ho.writing
  asking := hd.asking ho.opened ho.proper ho.asking
  handing := hd.handing ho.opened ho.handing
  hearing := hd.hearing ho.opened ho.hearing
  working := hd.working ho.opened ho.proper ho.working

theorem run_orderliness (hr : Run (peerMachine g env) v hist) : Orderliness env hist v := by
  induction hr with
  | start hinit =>
    obtain rfl := hinit
    exact orderliness_initial env
  | next _ _ hs ho => exact (peerStep_does hs).orderliness ho

/-- Nothing is under way in a running host. -/
structure UpToDate (v : Host) : Prop where
  running : v.running = true
  control : v.control.idle = true
  computing : v.computing.free = true
  computeQueue : v.computeQueue.items = []
  sending : v.sending = .top ∨ v.sending = .popping
  sendQueue : v.sendQueue.items = []

def framesOf (k : MsgType) (hist : List Deed) : List Msg :=
  (hist.filterMap Deed.frame).filter (Msg.ofKind k)

/-- What was written answers, in order, the tokens admitted, the experts' inputs handled and
the tokens chosen for a pull. -/
structure Serves (env : HostEnv) (hist : List Deed) (tokens asked : List ℕ) (inputs : List Msg) :
    Prop where
  dispatches : List.Forall₂ (fun i => Answers env (.localAttention i)) tokens
    (framesOf .dispatchToken hist)
  results : List.Forall₂ (fun x => Answers env (.expertMlp x)) inputs (framesOf .expertResult hist)
  pulls : List.Forall₂ (AsksFor env) asked (framesOf .combinePullReq hist)

theorem Orderliness.sent (ho : Orderliness env hist v) (p : Msg → Bool) :
    (hist.filterMap Deed.frame).filter p <+: hist.filterMap (Deed.messageIn p) := by
  have heq : hist.filterMap (Deed.messageIn p) = (hist.filterMap Deed.message).filter p := by
    rw [List.filter_filterMap]
    rfl
  rw [heq]
  exact ho.writing.segment.filter p

theorem answers_filter {α : Type} {f : ComputeTask → Option α} {k : MsgType} {Q : α → Msg → Prop}
    (hsome : ∀ t m a, Answers env t m → f t = some a → m.ofKind k = true ∧ Q a m)
    (hnone : ∀ t m, Answers env t m → f t = none → m.ofKind k = false)
    {tasks : List ComputeTask} {l : List Msg} (hwork : List.Forall₂ (Answers env) tasks l) :
    List.Forall₂ Q (tasks.filterMap f) (l.filter (Msg.ofKind k)) := by
  induction hwork with
  | nil => exact .nil
  | @cons t m tasks l ht _ ih =>
    cases hf : f t with
    | none =>
      rw [List.filterMap_cons_none hf,List.filter_cons_of_neg (by simp [hnone t m ht hf])]
      exact ih
    | some a =>
      obtain ⟨hk,hQ⟩ := hsome t m a ht hf
      rw [List.filterMap_cons_some hf,List.filter_cons_of_pos hk]
      exact .cons hQ ih

theorem dispatches_of_work {tasks : List ComputeTask} {l : List Msg}
    (hwork : List.Forall₂ (Answers env) tasks l) :
    List.Forall₂ (fun i => Answers env (.localAttention i)) (tasks.filterMap ComputeTask.attention)
      (l.filter (Msg.ofKind .dispatchToken)) := by
  refine answers_filter ?_ ?_ hwork
  · intro t m i ht hi
    cases t with
    | localAttention j =>
      obtain rfl := Option.some.inj hi
      refine ⟨?_,ht⟩
      obtain ⟨token,ts,-,rfl⟩ := ht
      rfl
    | expertMlp x => cases hi
  · intro t m ht hi
    cases t with
    | localAttention j => cases hi
    | expertMlp x =>
      obtain ⟨ts,rfl⟩ := ht
      rfl

theorem results_of_work {tasks : List ComputeTask} {l : List Msg}
    (hwork : List.Forall₂ (Answers env) tasks l) :
    List.Forall₂ (fun x => Answers env (.expertMlp x)) (tasks.filterMap ComputeTask.input)
      (l.filter (Msg.ofKind .expertResult)) := by
  refine answers_filter ?_ ?_ hwork
  · intro t m x ht hx
    cases t with
    | localAttention j => cases hx
    | expertMlp y =>
      obtain rfl := Option.some.inj hx
      refine ⟨?_,ht⟩
      obtain ⟨ts,rfl⟩ := ht
      rfl
  · intro t m ht hx
    cases t with
    | localAttention j =>
      obtain ⟨token,ts,-,rfl⟩ := ht
      rfl
    | expertMlp y => cases hx

theorem framesOf_computed (k : MsgType) (hk : k = .dispatchToken ∨ k = .expertResult)
    (hist : List Deed) :
    ((hist.filterMap Deed.frame).filter Msg.computed).filter (Msg.ofKind k) = framesOf k hist := by
  rw [List.filter_filter]
  refine List.filter_congr fun m _ => ?_
  rcases hk with rfl | rfl <;> simp [Msg.computed] <;> tauto

theorem range_of_segment {l : List ℕ} {n : ℕ} (hl : l <+: List.range n) :
    ∃ k ≤ n, l = List.range k := by
  have hlen : l.length ≤ n := by simpa using hl.length_le
  refine ⟨l.length,hlen,?_⟩
  calc l = (List.range n).take l.length := List.prefix_iff_eq_take.mp hl
    _ = List.range (min l.length n) := List.take_range
    _ = List.range l.length := by rw [min_eq_left hlen]

theorem filterMap_handed (hist : List Deed) :
    (hist.filterMap Deed.task).filterMap ComputeTask.attention = hist.filterMap Deed.handed :=
  List.filterMap_filterMap

theorem filterMap_heard (hist : List Deed) :
    (hist.filterMap Deed.task).filterMap ComputeTask.input = hist.filterMap Deed.heard :=
  List.filterMap_filterMap

theorem Orderliness.serves (ho : Orderliness env hist v) :
    ∃ n ≤ v.nextToAdmit, ∃ asked inputs, asked <+: hist.filterMap Deed.question ∧
      inputs <+: hist.filterMap Deed.input ∧ Serves env hist (List.range n) asked inputs := by
  obtain ⟨hand,-,hworking⟩ := ho.working
  obtain ⟨tasks,htasks,hwork⟩ := hworking.answered (ho.sent Msg.computed)
  obtain ⟨asked,hasked,hpulls⟩ := ho.asking.answered (ho.sent (Msg.ofKind .combinePullReq))
  have htokens : tasks.filterMap ComputeTask.attention <+: List.range v.nextToAdmit := by
    rw [← ho.admission]
    refine List.IsPrefix.trans ?_ ho.handing.segment
    rw [← filterMap_handed]
    exact htasks.filterMap _
  have hinputs : tasks.filterMap ComputeTask.input <+: hist.filterMap Deed.input := by
    refine List.IsPrefix.trans ?_ ho.hearing.segment
    rw [← filterMap_heard]
    exact htasks.filterMap _
  obtain ⟨n,hn,hrange⟩ := range_of_segment htokens
  refine ⟨n,hn,asked,_,hasked,hinputs,?_,?_,hpulls⟩
  · rw [← hrange,← framesOf_computed _ (.inl rfl)]
    exact dispatches_of_work hwork
  · rw [← framesOf_computed _ (.inr rfl)]
    exact results_of_work hwork

theorem Orderliness.complete (ho : Orderliness env hist v) (hu : UpToDate v) :
    Serves env hist (List.range v.nextToAdmit) (hist.filterMap Deed.question)
      (hist.filterMap Deed.input) := by
  have hrun : ¬v.running = false := by
    rw [hu.running]
    simp
  have hcontrol := Control.of_idle hu.control
  have hloud : ¬Silent env v := by
    rintro (hs | ⟨-,-,hstopped⟩)
    · rcases hu.sending with h | h <;> simp [h] at hs
    · exact hrun hstopped
  have hframes : hist.filterMap Deed.message = hist.filterMap Deed.frame := by
    have hw := ho.writing
    have hnone : v.sending.message = none := by
      rcases hu.sending with h | h <;> rw [h] <;> rfl
    rw [Writing,hnone,hu.sendQueue] at hw
    simpa [List.forall₂_eq_eq_eq] using hw.all hloud
  have hsent (p : Msg → Bool) :
      hist.filterMap (Deed.messageIn p) = (hist.filterMap Deed.frame).filter p := by
    rw [← hframes,List.filter_filterMap]
    rfl
  have htokens : hist.filterMap Deed.handed = List.range v.nextToAdmit := by
    have hh := ho.handing
    rw [Handing,hcontrol,ho.admission] at hh
    have hall := hh.all hrun
    rw [List.forall₂_eq_eq_eq] at hall
    exact hall.symm
  have hinputs : hist.filterMap Deed.heard = hist.filterMap Deed.input := by
    have hall := ho.hearing.all hrun
    rw [List.forall₂_eq_eq_eq] at hall
    exact hall.symm
  have hwork : List.Forall₂ (Answers env) (hist.filterMap Deed.task)
      ((hist.filterMap Deed.frame).filter Msg.computed) := by
    obtain ⟨hand,hhand,hw⟩ := ho.working
    obtain rfl := (holds_of_free hu.computing).mp hhand
    rw [hu.computeQueue,hsent] at hw
    exact hw.all hrun
  refine ⟨?_,?_,?_⟩
  · rw [← htokens,← filterMap_handed,← framesOf_computed _ (.inl rfl)]
    exact dispatches_of_work hwork
  · rw [← hinputs,← filterMap_heard,← framesOf_computed _ (.inr rfl)]
    exact results_of_work hwork
  · have ha := ho.asking
    rw [Asking,hcontrol,hsent] at ha
    exact ha.all hrun

/-- Whatever its peer sends, and whatever becomes of the connection, a host writes the
DISPATCH_TOKENs of its first tokens in order, each once, one EXPERT_RESULT for each of the first
EXPERT_INPUTs it has handled, in order, and one COMBINE_PULL_REQ for each of the first tokens
chosen for a pull; once nothing is under way, for all of them. -/
theorem host_serves (hr : Run (peerMachine g env) v hist) :
    (∃ n ≤ v.nextToAdmit, ∃ asked inputs, asked <+: hist.filterMap Deed.question ∧
      inputs <+: hist.filterMap Deed.input ∧ Serves env hist (List.range n) asked inputs) ∧
    (UpToDate v → Serves env hist (List.range v.nextToAdmit) (hist.filterMap Deed.question)
      (hist.filterMap Deed.input)) :=
  ⟨(run_orderliness hr).serves,(run_orderliness hr).complete⟩

/-- One token, four loops. -/
def lonelyHost : HostEnv where
  rank := 0
  workload := [makeToken 1 0 0 0 1 1 [0]]
  windowSize := 1
  mode := .fourLoops

/-- A message about token 0. -/
def peerMsg (k : MsgType) : Msg := ⟨MsgHeader.new k 0,Bytes.empty⟩

def peerReads (k : MsgType) (now : ℕ) : List PeerAction :=
  [.loop (.read now),.arrives (peerMsg k),.loop (.read now)]

def peerPush (n : ℕ) : List PeerAction := List.replicate n (.loop (.push 0))
def peerCompute : List PeerAction := List.replicate 4 (.loop (.compute 0))
def peerSend : List PeerAction := [.loop .send,.loop .send]
def peerTick (now : ℕ) : List PeerAction := .loop (.tick now 0)::peerPush 2

/-- The token is dispatched and acknowledged, an expert's input comes in between, and the first
pull is refused. -/
def servedRun : List PeerAction :=
  peerPush 2 ++ peerCompute ++ peerSend ++ [.wrote] ++ peerReads .ack 0 ++
  peerReads .expertInput 0 ++ peerCompute ++ peerSend ++ [.wrote] ++ peerTick 0 ++ peerSend ++
  [.wrote] ++ peerReads .notReady 5

/-- The second pull is lost with the connection. -/
def refusedRun : List PeerAction := servedRun ++ peerTick 10000005 ++ peerSend ++ [.writeFails]

def Sending.free : Sending → Bool
  | .writing _ => false
  | .exited => false
  | _ => true

theorem upToDate_of_free (hrun : v.running = true) (hcontrol : v.control.idle = true)
    (hcomputing : v.computing.free = true) (hcompute : v.computeQueue.items.isEmpty = true)
    (hsending : v.sending.free = true) (hsend : v.sendQueue.items.isEmpty = true) : UpToDate v := by
  refine ⟨hrun,hcontrol,hcomputing,List.isEmpty_iff.mp hcompute,?_,List.isEmpty_iff.mp hsend⟩
  cases hs : v.sending with
  | top => exact .inl rfl
  | popping => exact .inr rfl
  | writing m | exited =>
    rw [hs] at hsending
    cases hsending

theorem host_serves_sample : ∃ v hist, Run (peerMachine (0 : Fin 1) lonelyHost) v hist ∧
    UpToDate v ∧ v.nextToAdmit = 1 ∧ (framesOf .expertResult hist).length = 1 ∧
    (framesOf .combinePullReq hist).length = 1 ∧
    Serves lonelyHost hist (List.range 1) (hist.filterMap Deed.question)
      (hist.filterMap Deed.input) := by
  obtain ⟨v,hist,hrun,hp⟩ := exists_run_of_replay (peerMachine (0 : Fin 1) lonelyHost)
    (fun _ _ => true) (Host.initial _) servedRun
    (fun v hist => v.running && (v.control.idle && (v.computing.free &&
      (v.computeQueue.items.isEmpty && (v.sending.free && (v.sendQueue.items.isEmpty &&
      decide (v.nextToAdmit = 1 ∧ (framesOf .expertResult hist).length = 1 ∧
        (framesOf .combinePullReq hist).length = 1))))))) rfl (by decide +kernel)
  simp only [Bool.and_eq_true,decide_eq_true_eq] at hp
  obtain ⟨hrunning,hcontrol,hcomputing,hcompute,hsending,hsend,hnext,hresults,hpulls⟩ := hp
  have hup := upToDate_of_free hrunning hcontrol hcomputing hcompute hsending hsend
  refine ⟨v,hist,hrun.run,hup,hnext,hresults,hpulls,?_⟩
  rw [← hnext]
  exact (host_serves hrun.run).2 hup

end INA2A

import INA2A.FourLoops
import INA2A.Lib.Settling

/-! How much work is left.  Every message, task and program position is worth the steps that
can still come of it; with four loops every step but a control tick uses some of that up, so
between two ticks a system of hosts and their switch comes to rest. -/
namespace INA2A

open ByteBuffers BitWords EventMachine

variable {N : ℕ}

/-- Everything the switch can do for a message that it gets; for an EXPERT_RESULT that is little. -/
def Msg.switchEffort (N : ℕ) (m : Msg) : ℕ :=
  if m.header.kind = some .expertResult then 3 else 17 * N + 20

/-- A message that a host has still to write. -/
def Msg.sendEffort (N : ℕ) (m : Msg) : ℕ := m.switchEffort N + 3

/-- A message for a host; it may be an EXPERT_INPUT. -/
def hostEffort : ℕ := 13

def ComputeTask.effort (N : ℕ) : ComputeTask → ℕ
  | .localAttention _ => 17 * N + 27
  | .expertMlp _ => 10

def finEffort (N : ℕ) : Option Msg → ℕ
  | none => 0
  | some m => m.sendEffort N + 1

def Control.effort (N : ℕ) : Control → ℕ
  | .pulling pulls _ fin => pulls.length * (17 * N + 24) + finEffort N fin + 2
  | .admitted tasks fin => tasks.length * (17 * N + 28) + finEffort N fin

def Computing.effort (N : ℕ) : Computing → ℕ
  | .exited => 0
  | .popping => 1
  | .top => 2
  | .task t => t.effort N
  | .pushing m => m.sendEffort N + 3

def Sending.effort (N : ℕ) : Sending → ℕ
  | .exited => 0
  | .popping => 1
  | .top => 2
  | .writing m => m.sendEffort N

def Reading.effort : Reading → ℕ
  | .exited => 0
  | .reading => 1
  | .top => 2
  | .got _ => hostEffort

/-- The tokens that are still to be admitted count as the tasks they will be. -/
def Host.effort (N : ℕ) (env : HostEnv) (v : Host) : ℕ :=
  v.control.effort N + v.computing.effort N + v.sending.effort N + v.reading.effort +
    (v.sendQueue.items.map (Msg.sendEffort N)).sum +
    (v.computeQueue.items.map (ComputeTask.effort N)).sum +
    (env.numTokens - v.nextToAdmit) * (17 * N + 28)

def ReaderPos.effort : ReaderPos N → ℕ
  | .notStarted => 3
  | .top => 2
  | .reading => 1
  | .got m => m.switchEffort N
  | .looking _ ids targets => 18 + 16 * ids.length + 15 * targets.length
  | .dispatching _ targets => 17 + 15 * targets.length
  | .clearing _ _ rest => 18 + 15 * rest.length
  | .replying _ => 17
  | .broadcasting _ rest => 15 * rest.length + (2 * N + 2)
  | .closing rest => 2 * rest.length + 1
  | .nulling _ rest => 2 * rest.length + 2
  | .exited _ => 0

/-- A reader that is not inside `sr_write` has still to enter it. -/
def Switch.readerEffort (s : Switch N) (h : Fin N) : ℕ :=
  (s.reader h).effort + (s.writing h).isNone.toNat

def MainPos.effort : MainPos N → ℕ
  | .joining => 2 * N + 2
  | .closing rest => 2 * rest.length + 1
  | .nulling _ rest => 2 * rest.length + 2
  | .done => 0

def Switch.effort (s : Switch N) : ℕ :=
  ∑ h, s.readerEffort h + s.main.effort + ∑ h, if s.hosts h then 0 else 1

def effort (c : Config N) (s : System N) : ℕ :=
  ∑ h, (s.host h).effort N (c.env h) + s.switch.effort +
    ∑ h, ((s.toSwitch h).map (Msg.switchEffort N)).sum + ∑ h, (s.toHost h).length * hostEffort

/-- A step that is not a control tick. -/
def Action.untimed : Action N → Bool
  | .host _ (.tick _ _) => false
  | _ => true

variable {c : Config N} {s s' : System N} {h g : Fin N} {env : HostEnv} {v v' : Host} {ts : U64}
  {ev : List (Event N)}

theorem Msg.switchEffort_le (m : Msg) : m.switchEffort N ≤ 17 * N + 20 := by
  unfold Msg.switchEffort
  split_ifs <;> omega

theorem Msg.le_switchEffort (m : Msg) : 3 ≤ m.switchEffort N := by
  unfold Msg.switchEffort
  split_ifs <;> omega

theorem Msg.switchEffort_other {m : Msg} (hkind : m.header.kind ≠ some .expertResult) :
    m.switchEffort N = 17 * N + 20 := if_neg hkind

theorem pushSend_effort (env : HostEnv) (v : Host) (m : Msg) :
    (pushSend g v m).1.effort N env ≤ v.effort N env + m.sendEffort N := by
  simp only [pushSend,BlockingQueue.push,Host.effort]
  split_ifs
  · omega
  · simp only [List.map_append,List.sum_append,List.map_cons,List.map_nil,List.sum_singleton]
    omega

theorem pushCompute_effort (env : HostEnv) (v : Host) (t : ComputeTask) :
    (pushCompute (N:=N) v t).1.effort N env ≤ v.effort N env + t.effort N := by
  simp only [pushCompute,BlockingQueue.push,Host.effort]
  split_ifs
  · omega
  · simp only [List.map_append,List.sum_append,List.map_cons,List.map_nil,List.sum_singleton]
    omega

theorem admittedIndices_length_le (env : HostEnv) (base fuel next : ℕ) :
    (admittedIndices env base fuel next).length ≤ fuel := by
  induction fuel generalizing next with
  | zero => exact Nat.zero_le _
  | succ fuel ih =>
    rw [admittedIndices]
    split_ifs
    · simpa using ih (next + 1)
    · exact Nat.zero_le _

theorem tryAdmitRawTokens_effort (fin : Option Msg) (hcontrol : v.control = .pulling [] true fin) :
    (tryAdmitRawTokens env v fin).effort N env < v.effort N env := by
  have hlen := admittedIndices_length_le env v.windowBase (env.numTokens - v.nextToAdmit)
    v.nextToAdmit
  simp only [tryAdmitRawTokens,Host.effort,hcontrol,Control.effort,List.length_nil]
  generalize admittedIndices env v.windowBase (env.numTokens - v.nextToAdmit) v.nextToAdmit = l
    at hlen ⊢
  obtain ⟨k,hk⟩ := Nat.le.dest hlen
  have hrest : env.numTokens - (v.nextToAdmit + l.length) = k := by omega
  rw [hrest,← hk,Nat.add_mul]
  omega

theorem controlPush_effort (hs : controlPush g env v ts = some (v',ev)) :
    v'.effort N env < v.effort N env := by
  unfold controlPush at hs
  split at hs
  · rename_i i pulls moved fin hcontrol
    dsimp only at hs
    have hless : { v with control := .pulling pulls moved fin }.effort N env + (17 * N + 24) =
        v.effort N env := by
      simp only [Host.effort,hcontrol,Control.effort,List.length_cons,Nat.add_mul]
      omega
    split at hs
    · obtain ⟨rfl,-⟩ := Prod.mk.inj (Option.some.inj hs)
      omega
    · rename_i token _
      have hv : (pushSend g { v with control := .pulling pulls moved fin }
        (combinePullMsg env token i ts)).1 = v' := congrArg Prod.fst (Option.some.inj hs)
      have hpush := pushSend_effort (N:=N) (g:=g) env
        { v with control := .pulling pulls moved fin } (combinePullMsg env token i ts)
      have hmsg := (combinePullMsg env token i ts).switchEffort_le (N:=N)
      rw [hv,Msg.sendEffort] at hpush
      omega
  · rename_i fin hcontrol
    obtain ⟨rfl,-⟩ := Prod.mk.inj (Option.some.inj hs)
    exact tryAdmitRawTokens_effort fin hcontrol
  · rename_i fin hcontrol
    obtain ⟨rfl,-⟩ := Prod.mk.inj (Option.some.inj hs)
    simp only [Host.effort,hcontrol,Control.effort,List.length_nil]
    omega
  · rename_i i tasks fin hcontrol
    have hv : (pushCompute (N:=N) { v with control := .admitted tasks fin }
      (.localAttention i)).1 = v' := congrArg Prod.fst (Option.some.inj hs)
    have hpush := pushCompute_effort (N:=N) env { v with control := .admitted tasks fin }
      (.localAttention i)
    have hless : { v with control := .admitted tasks fin }.effort N env + (17 * N + 28) =
        v.effort N env := by
      simp only [Host.effort,hcontrol,Control.effort,List.length_cons,Nat.add_mul]
      omega
    rw [hv,ComputeTask.effort] at hpush
    omega
  · rename_i m hcontrol
    have hv : (pushSend g { v with control := .admitted [] none } m).1 = v' :=
      congrArg Prod.fst (Option.some.inj hs)
    have hpush := pushSend_effort (N:=N) (g:=g) env { v with control := .admitted [] none } m
    rw [hv] at hpush
    have hless : { v with control := .admitted [] none }.effort N env + (m.sendEffort N + 1) =
        v.effort N env := by
      simp only [Host.effort,hcontrol,Control.effort,List.length_nil,finEffort]
      omega
    omega
  · cases hs

theorem leaveCompute_effort (env : HostEnv) (v : Host) :
    (leaveCompute env v).effort N env + v.computing.effort N = v.effort N env + 2 := by
  simp only [leaveCompute,Host.effort,Computing.effort]
  omega

theorem computeStep_effort (hmode : env.mode = .fourLoops)
    (hs : computeStep g env v ts = some (v',ev)) : v'.effort N env < v.effort N env := by
  unfold computeStep at hs
  split at hs
  · rename_i hcomputing
    rw [hmode,if_neg (by decide)] at hs
    obtain ⟨rfl,-⟩ := Prod.mk.inj (Option.some.inj hs)
    simp only [Host.effort,hcomputing]
    split_ifs <;> simp only [Computing.effort] <;> omega
  · rename_i hcomputing
    split at hs
    · split_ifs at hs
      obtain ⟨rfl,-⟩ := Prod.mk.inj (Option.some.inj hs)
      simp only [Host.effort,hcomputing,Computing.effort]
      omega
    · rename_i t rest hitems
      obtain ⟨rfl,-⟩ := Prod.mk.inj (Option.some.inj hs)
      simp only [Host.effort,hcomputing,hitems,Computing.effort,List.map_cons,List.sum_cons]
      omega
  · rename_i t hcomputing
    have hleave := leaveCompute_effort (N:=N) env v
    rw [hcomputing] at hleave
    have htask : 10 ≤ t.effort N := by
      cases t <;> simp only [ComputeTask.effort] <;> omega
    have hleft : (leaveCompute env v).effort N env < v.effort N env := by
      simp only [Computing.effort] at hleave
      omega
    split_ifs at hs with hrunning
    · obtain ⟨rfl,-⟩ := Prod.mk.inj (Option.some.inj hs)
      cases t with
      | localAttention i =>
        simp only [processComputeTask]
        split
        · exact hleft
        · rename_i token _
          have hmsg := (dispatchTokenMsg token i ts).switchEffort_le (N:=N)
          simp only [Host.effort,hcomputing,Computing.effort,ComputeTask.effort,Msg.sendEffort]
          omega
      | expertMlp input =>
        have hmsg : (expertResultMsg env input ts).switchEffort N = 3 := if_pos rfl
        simp only [processComputeTask,Host.effort,hcomputing,Computing.effort,ComputeTask.effort,
          Msg.sendEffort,hmsg]
        omega
    · obtain ⟨rfl,-⟩ := Prod.mk.inj (Option.some.inj hs)
      exact hleft
  · rename_i m hcomputing
    have hv : (pushSend g (leaveCompute env v) m).1 = v' :=
      congrArg Prod.fst (Option.some.inj hs)
    have hleave := leaveCompute_effort (N:=N) env v
    have hpush := pushSend_effort (N:=N) (g:=g) env (leaveCompute env v) m
    rw [hcomputing,Computing.effort] at hleave
    rw [hv] at hpush
    omega
  · cases hs

theorem sendStep_effort (hmode : env.mode = .fourLoops) (hs : sendStep env v = some v') :
    v'.effort N env < v.effort N env := by
  unfold sendStep at hs
  split at hs
  · rename_i hsending
    rw [if_pos hmode] at hs
    obtain rfl := Option.some.inj hs
    simp only [Host.effort,hsending]
    split_ifs <;> simp only [Sending.effort] <;> omega
  · rename_i hsending
    split at hs
    · split_ifs at hs
      obtain rfl := Option.some.inj hs
      simp only [Host.effort,hsending,Sending.effort]
      omega
    · rename_i m rest hitems
      obtain rfl := Option.some.inj hs
      simp only [Host.effort,hsending,hitems,Sending.effort,List.map_cons,List.sum_cons]
      omega
  · cases hs

theorem updateToken_effort (v : Host) (idx : U64) (f : TokenWindowState → TokenWindowState) :
    (updateToken v idx f).effort N env = v.effort N env := by
  unfold updateToken
  split <;> rfl

theorem handleIncomingMessage_effort (env : HostEnv) (v : Host) (m : Msg) (now : ℕ) :
    (handleIncomingMessage (N:=N) v m now).1.effort N env ≤ v.effort N env + 10 ∧
      (handleIncomingMessage (N:=N) v m now).1.reading = v.reading := by
  have htoken : ∀ f, (updateToken v m.header.globalIdx f).effort N env ≤ v.effort N env + 10 ∧
      (updateToken v m.header.globalIdx f).reading = v.reading := by
    intro f
    refine ⟨by rw [updateToken_effort]; omega,?_⟩
    unfold updateToken
    split <;> rfl
  unfold handleIncomingMessage
  split
  · exact htoken _
  · exact ⟨pushCompute_effort env v (.expertMlp m),rfl⟩
  · exact htoken _
  · exact htoken _
  · exact ⟨Nat.le_add_right _ _,rfl⟩
  · exact ⟨Nat.le_add_right _ _,rfl⟩

theorem readStep_effort (hmode : env.mode = .fourLoops) {now : ℕ}
    (hs : readStep (N:=N) env v now = some (v',ev)) : v'.effort N env < v.effort N env := by
  unfold readStep at hs
  split at hs
  · rename_i hreading
    rw [if_pos hmode] at hs
    obtain ⟨rfl,-⟩ := Prod.mk.inj (Option.some.inj hs)
    simp only [Host.effort,hreading]
    split_ifs <;> simp only [Reading.effort] <;> omega
  · rw [if_pos hmode] at hs
    cases hs
  · rename_i m hreading
    obtain ⟨rfl,-⟩ := Prod.mk.inj (Option.some.inj hs)
    obtain ⟨heffort,hsame⟩ := handleIncomingMessage_effort (N:=N) env v m now
    generalize handleIncomingMessage (N:=N) v m now = r at heffort hsame
    rw [hreading] at hsame
    have hgot : r.1.reading.effort = 13 := by rw [hsame]; rfl
    have hafter : ∀ w : Host, w = { r.1 with reading := w.reading } → w.reading.effort ≤ 2 →
        w.effort N env < v.effort N env := by
      intro w hw hle
      have hsum : w.effort N env + r.1.reading.effort = r.1.effort N env + w.reading.effort := by
        conv_lhs => rw [hw]
        simp only [Host.effort]
        omega
      omega
    split_ifs
    · simp only [leaveRead,hmode]
      exact hafter _ rfl (by simp [Reading.effort])
    · simp only [exitRead,hmode,if_true]
      exact hafter _ rfl (by simp [Reading.effort])
  · cases hs

theorem hostStep_effort (hmode : env.mode = .fourLoops) {a : HostAction}
    (hun : ∀ now ts, a ≠ .tick now ts) (hs : hostStep g env v a = some (v',ev)) :
    v'.effort N env < v.effort N env := by
  cases hostStep_move hs with
  | tick => exact absurd rfl (hun _ _)
  | push _ hstep => exact controlPush_effort hstep
  | compute _ hstep => exact computeStep_effort hmode hstep
  | send _ hstep => exact sendStep_effort hmode hstep
  | read _ hstep => exact readStep_effort hmode hstep

variable {w w' : Switch N} {i : ReaderInput}

/-- The message that a step of a reader receives. -/
def ReaderInput.takes (N : ℕ) : ReaderInput → ℕ
  | .recv m => m.switchEffort N
  | _ => 0

/-- The message that a step of a reader writes. -/
def ReaderInput.gives : ReaderInput → ℕ
  | .sent true => hostEffort
  | _ => 0

theorem decodeExpertIds_length (bitmap : U64) : (decodeExpertIds bitmap N).length ≤ N := by
  unfold decodeExpertIds
  dsimp only
  split_ifs with hempty
  · rw [List.length_singleton]
    omega
  · refine (List.length_filter_le _ _).trans ?_
    rw [List.length_range]
    omega

theorem snapshotHosts_length (w : Switch N) : (snapshotHosts w).length ≤ N := by
  refine (List.length_filter_le _ _).trans ?_
  rw [List.length_finRange]

theorem afterSend_effort {q : ReaderPos N} (hq : sendTarget h q = some g) (ok : Bool) :
    (afterSend ok q).effort + (if ok then 15 else 2) ≤ q.effort := by
  cases q with
  | dispatching m targets =>
    cases targets <;> cases ok <;> simp [afterSend,ReaderPos.effort]
    all_goals omega
  | replying response => cases ok <;> simp [afterSend,ReaderPos.effort]
  | broadcasting rid rest =>
    cases rest with
    | nil => cases hq
    | cons g' rest =>
      cases ok <;> simp [afterSend,ReaderPos.effort]
      all_goals omega
  | _ => cases hq

theorem readerEffort_setReader (w : Switch N) (h : Fin N) (q : ReaderPos N) :
    (w.setReader h q).readerEffort h + (w.reader h).effort = w.readerEffort h + q.effort := by
  simp only [Switch.readerEffort,Switch.setReader,Function.update_self]
  omega

theorem ReaderMove.effort (hm : ReaderMove w h i w' ev) :
    w'.readerEffort h + i.gives < w.readerEffort h + i.takes N := by
  have hset : ∀ {p q : ReaderPos N}, w.reader h = p → q.effort < p.effort →
      (w.setReader h q).readerEffort h < w.readerEffort h := by
    intro p q hq hlt
    have := readerEffort_setReader w h q
    rw [hq] at this
    omega
  have hgot : ∀ {m : Msg} {q : ReaderPos N}, w.reader h = .got m → q.effort < 3 →
      (w.setReader h q).readerEffort h < w.readerEffort h := by
    intro m q hq hlt
    exact hset hq (hlt.trans_le (m.le_switchEffort (N:=N)))
  have hwork : ∀ {m : Msg} {q : ReaderPos N}, w.reader h = .got m →
      m.header.kind ≠ some .expertResult → q.effort < 17 * N + 20 →
      (w.setReader h q).readerEffort h < w.readerEffort h := by
    intro m q hq hkind hlt
    refine hset hq ?_
    simpa only [ReaderPos.effort,Msg.switchEffort_other hkind] using hlt
  have htop : (ReaderPos.top : ReaderPos N).effort < 3 := Nat.lt_succ_self 2
  cases hm with
  | enterRead ts _ hq => exact hset hq (by simp [ReaderPos.effort])
  | leave ts _ hq => exact hset hq (by simp [ReaderPos.effort])
  | recv m hq =>
    have hsum := readerEffort_setReader w h (.got m)
    rw [hq] at hsum
    simp only [ReaderPos.effort,ReaderInput.takes,ReaderInput.gives] at hsum ⊢
    omega
  | recvFail hq => exact hset hq (by simp [ReaderPos.effort])
  | dispatchMismatch ts m _ hq => exact hgot hq htop
  | dispatch ts m _ hq hkind =>
    have hlen := decodeExpertIds_length (N:=N) m.header.expertBitmap
    refine hwork hq (by simp [hkind]) ?_
    simp only [ReaderPos.effort,List.length_nil]
    omega
  | resultRejected ts m f _ hq => exact hgot hq htop
  | result ts m queue _ hq => exact hgot hq htop
  | pullReady ts m slot _ hq hkind =>
    exact hwork hq (by simp [hkind]) (q:=.replying (combineResultMsg m.header slot ts))
      (by simp only [ReaderPos.effort]; omega)
  | pullNotReady ts m slot _ hq hkind =>
    exact hwork hq (by simp [hkind]) (by simp only [ReaderPos.effort]; omega)
  | pullMissing ts m _ hq hkind =>
    exact hwork hq (by simp [hkind]) (by simp only [ReaderPos.effort]; omega)
  | ackSeen ts m _ hq => exact hgot hq htop
  | finishMarked ts m _ hq => exact hgot hq htop
  | finishLast ts m _ hq hkind =>
    have hlen := snapshotHosts_length w
    refine hwork hq (by simp [hkind]) (q:=.broadcasting m.header.runId (snapshotHosts w)) ?_
    simp only [ReaderPos.effort]
    omega
  | ignored ts m _ hq => exact hgot hq htop
  | lookupMiss ts m id ids targets _ hq =>
    exact hset hq (by simp only [ReaderPos.effort,List.length_cons]; omega)
  | lookup ts m id ids targets g _ hq =>
    refine hset hq ?_
    simp only [ReaderPos.effort,List.length_cons,List.length_append,List.length_nil]
    omega
  | create ts m targets _ hq =>
    exact hset hq (q:=.dispatching m targets) (by simp only [ReaderPos.effort]; omega)
  | clear ts m g rest _ hq =>
    exact hset hq (q:=.dispatching m rest) (by simp only [ReaderPos.effort]; omega)
  | stopRunning ts rid _ hq =>
    have hlen := snapshotHosts_length w
    refine hset hq (q:=.closing (snapshotHosts w)) ?_
    simp only [ReaderPos.effort,List.length_nil]
    omega
  | close ts g rest _ hq =>
    exact hset hq (q:=.nulling g rest) (by simp only [ReaderPos.effort,List.length_cons]; omega)
  | skipClosed ts g rest _ hq =>
    exact hset hq (by simp only [ReaderPos.effort,List.length_cons]; omega)
  | null ts g rest _ hq =>
    exact hset hq (q:=.closing rest) (by simp only [ReaderPos.effort]; omega)
  | endClosing ts _ hq => exact hset hq (by simp [ReaderPos.effort])
  | sendNull ts g _ hq =>
    have hsend := afterSend_effort hq false
    simp only [Bool.false_eq_true,if_false] at hsend
    exact hset rfl (Nat.lt_of_succ_lt hsend)
  | enterWrite ts g hw =>
    simp [Switch.readerEffort,ReaderInput.takes,ReaderInput.gives,hw]
  | finishWrite ts g ok hw hq =>
    have hsend := afterSend_effort hq ok
    cases ok <;> simp [Switch.readerEffort,finishSend,ReaderInput.takes,ReaderInput.gives,hw,
      hostEffort] at hsend ⊢
    all_goals omega

theorem MainMove.effort (hm : MainMove w w' ev) : w'.main.effort < w.main.effort := by
  have hlen := snapshotHosts_length w
  cases hm with
  | joined hq _ => simp only [hq,MainPos.effort]; omega
  | close g rest hq _ => simp only [hq,MainPos.effort,List.length_cons]; omega
  | skipClosed g rest hq _ => simp only [hq,MainPos.effort,List.length_cons]; omega
  | null g rest hq => simp only [hq,MainPos.effort]; omega
  | finish hq => simp [hq,MainPos.effort]

theorem ReaderMove.switchEffort (hm : ReaderMove w h i w' ev) :
    w'.effort + i.gives < w.effort + i.takes N := by
  have hreader := hm.effort
  have hsum := sum_change (f:=w.readerEffort) (g:=w'.readerEffort) h fun g hg => by
    rw [Switch.readerEffort,Switch.readerEffort,hm.reader_of_ne hg,hm.writing_of_ne hg]
  simp only [Switch.effort,hm.hosts,hm.main]
  omega

theorem SwitchMove.effort {a : SwitchAction N} (hm : SwitchMove w a w' ev)
    (ha : ∀ h i, a ≠ .reader h i) : w'.effort < w.effort := by
  cases hm with
  | accept g hg =>
    have hsum := sum_change (f:=fun h => if w.hosts h then 0 else 1)
      (g:=fun h => if Function.update w.hosts g true h then 0 else 1) g fun h hh => by simp [hh]
    simp only [hg,Function.update_self,if_true,Bool.false_eq_true,if_false] at hsum
    simp only [Switch.effort,Switch.readerEffort]
    omega
  | start h hq _ =>
    have hsum := sum_change (f:=w.readerEffort) (g:=(w.setReader h .top).readerEffort) h
      fun g hg => by simp [Switch.readerEffort,hg,Switch.setReader]
    have hreader := readerEffort_setReader w h .top
    rw [hq] at hreader
    simp only [ReaderPos.effort] at hreader
    simp only [Switch.effort]
    change ∑ h, _ + w.main.effort + ∑ h, (if w.hosts h then 0 else 1) < _
    omega
  | reader h i => exact absurd rfl (ha h i)
  | main _ _ hmove =>
    have hmain := hmove.effort
    have hsame : w'.reader = w.reader ∧ w'.writing = w.writing ∧ w'.hosts = w.hosts := by
      cases hmove <;> exact ⟨rfl,rfl,rfl⟩
    simp only [Switch.effort,Switch.readerEffort,hsame.1,hsame.2.1,hsame.2.2]
    omega

theorem setHost_effort (hless : v.effort N (c.env h) < (s.host h).effort N (c.env h)) :
    effort c (s.setHost h v) < effort c s := by
  have hsum := sum_change (f:=fun g => (s.host g).effort N (c.env g))
    (g:=fun g => (Function.update s.host h v g).effort N (c.env g)) h fun g hg => by simp [hg]
  simp only [Function.update_self] at hsum
  simp only [effort,System.setHost]
  omega

theorem hostWrite_effort (hmode : (c.args h).mode = .fourLoops)
    (hs : hostWrite c s h = some (s',ev)) : effort c s' < effort c s := by
  unfold hostWrite at hs
  split at hs
  · rename_i m hsending
    have hle := m.le_switchEffort (N:=N)
    split at hs
    · obtain ⟨rfl,-⟩ := Prod.mk.inj (Option.some.inj hs)
      apply setHost_effort
      have hfailed : (writeFailed (c.env h) (s.host h)).effort N (c.env h) +
          (s.host h).sending.effort N = (s.host h).effort N (c.env h) := by
        have henv : (c.env h).mode = .fourLoops := hmode
        simp only [writeFailed,henv,if_true,Host.effort,shutdownRuntime,BlockingQueue.close,
          Sending.effort]
        omega
      rw [hsending,Sending.effort,Msg.sendEffort] at hfailed
      omega
    · rename_i frame hframe
      obtain ⟨rfl,-⟩ := Prod.mk.inj (Option.some.inj hs)
      have hheader : frame.switchEffort N = m.switchEffort N := by
        unfold srWrite at hframe
        split_ifs at hframe
        obtain rfl := Except.ok.inj hframe
        rfl
      have hwrote : (wroteMsg (s.host h)).effort N (c.env h) + (s.host h).sending.effort N =
          (s.host h).effort N (c.env h) + 2 := by
        simp only [wroteMsg,Host.effort,Sending.effort]
        omega
      rw [hsending,Sending.effort,Msg.sendEffort] at hwrote
      have hhosts := sum_change (f:=fun g => (s.host g).effort N (c.env g))
        (g:=fun g => (Function.update s.host h (wroteMsg (s.host h)) g).effort N (c.env g)) h
        fun g hg => by simp [hg]
      have hframes := sum_change (f:=fun g => ((s.toSwitch g).map (Msg.switchEffort N)).sum)
        (g:=fun g => ((Function.update s.toSwitch h (s.toSwitch h ++ [frame]) g).map
          (Msg.switchEffort N)).sum) h fun g hg => by simp [hg]
      simp only [Function.update_self,List.map_append,List.sum_append,List.map_singleton,
        List.sum_singleton,hheader] at hhosts hframes
      simp only [effort,System.setHost]
      omega
  · cases hs

theorem hostReceive_effort (hmode : (c.args h).mode = .fourLoops)
    (hs : hostReceive c s h = some (s',ev)) : effort c s' < effort c s := by
  have henv : (c.env h).mode = .fourLoops := hmode
  unfold hostReceive at hs
  split at hs
  · rename_i frame rest hreading hunread
    have hdown := sum_change (f:=fun g => (s.toHost g).length * hostEffort)
      (g:=fun g => (Function.update s.toHost h rest g).length * hostEffort) h
      fun g hg => by simp [hg]
    simp only [Function.update_self,hunread,List.length_cons,Nat.add_mul] at hdown
    -- the message leaves the connection for the hands of the host
    have hgets : ∀ v : Host, v.effort N (c.env h) + 1 ≤
        (s.host h).effort N (c.env h) + hostEffort →
        effort c { s.setHost h v with toHost := Function.update s.toHost h rest } < effort c s := by
      intro v hv
      have hhosts := sum_change (f:=fun g => (s.host g).effort N (c.env g))
        (g:=fun g => (Function.update s.host h v g).effort N (c.env g)) h fun g hg => by simp [hg]
      simp only [Function.update_self] at hhosts
      simp only [effort,System.setHost]
      omega
    split_ifs at hs
    dsimp only at hs
    split at hs
    · obtain ⟨rfl,-⟩ := Prod.mk.inj (Option.some.inj hs)
      apply hgets
      simp only [readFailed,exitRead,henv,if_true,shutdownRuntime,BlockingQueue.close,Host.effort,
        hreading,Reading.effort]
      omega
    · obtain ⟨rfl,-⟩ := Prod.mk.inj (Option.some.inj hs)
      apply hgets
      simp only [Host.effort,hreading,Reading.effort]
      omega
  · cases hs

theorem reader_effort {i : ReaderInput} (taken given : List Msg → List Msg)
    (hm : ReaderMove s.switch h i w ev)
    (htaken : ((taken (s.toSwitch h)).map (Msg.switchEffort N)).sum + i.takes N ≤
      ((s.toSwitch h).map (Msg.switchEffort N)).sum)
    (hgiven : (given (s.toHost g)).length * hostEffort ≤ (s.toHost g).length * hostEffort + i.gives) :
    effort c { s with switch := w
                      toSwitch := Function.update s.toSwitch h (taken (s.toSwitch h))
                      toHost := Function.update s.toHost g (given (s.toHost g)) } < effort c s := by
  have hswitch := hm.switchEffort
  have hup := sum_change (f:=fun g => ((s.toSwitch g).map (Msg.switchEffort N)).sum)
    (g:=fun g => ((Function.update s.toSwitch h (taken (s.toSwitch h)) g).map
      (Msg.switchEffort N)).sum) h fun g hg => by simp [hg]
  have hdown := sum_change (f:=fun g => (s.toHost g).length * hostEffort)
    (g:=fun r => (Function.update s.toHost g (given (s.toHost g)) r).length * hostEffort) g
    fun r hr => by simp [hr]
  simp only [Function.update_self] at hup hdown
  simp only [effort]
  omega

theorem receive_effort {frame m : Msg} (hm : receive frame = .ok m) :
    m.switchEffort N = frame.switchEffort N := by
  unfold receive srRead at hm
  split_ifs at hm
  obtain rfl := Except.ok.inj hm
  rfl

theorem systemReader_effort (hs : systemReader s h ts = some (s',ev)) :
    effort c s' < effort c s := by
  have hkeep : ∀ {i : ReaderInput} {r : Switch N × List (Event N)},
      readerStep s.switch h i = some r → i.takes N = 0 →
      effort c { s with switch := r.1 } < effort c s := by
    intro i r hr hnone
    simpa using reader_effort (c:=c) (g:=h) id id (readerStep_move hr)
      (by simp [hnone]) (by simp)
  have htake : ∀ {i : ReaderInput} {r : Switch N × List (Event N)} {frame : Msg} {rest : List Msg},
      s.toSwitch h = frame::rest → readerStep s.switch h i = some r →
      i.takes N ≤ frame.switchEffort N →
      effort c { s with switch := r.1
                        toSwitch := Function.update s.toSwitch h rest } < effort c s := by
    intro i r frame rest hq hr hle
    simpa [hq] using reader_effort (c:=c) (g:=h) List.tail id (readerStep_move hr)
      (by simp [hq]; omega) (by simp)
  unfold systemReader at hs
  split at hs
  · split at hs
    · rename_i frame rest hq
      dsimp only at hs
      split at hs
      · obtain ⟨r,hr,heq⟩ := Option.map_eq_some_iff.mp hs
        obtain ⟨rfl,-⟩ := Prod.mk.inj heq
        exact htake hq hr (Nat.zero_le _)
      · rename_i m hm
        obtain ⟨r,hr,heq⟩ := Option.map_eq_some_iff.mp hs
        obtain ⟨rfl,-⟩ := Prod.mk.inj heq
        exact htake hq hr (receive_effort hm).le
    · split_ifs at hs
      obtain ⟨r,hr,heq⟩ := Option.map_eq_some_iff.mp hs
      obtain ⟨rfl,-⟩ := Prod.mk.inj heq
      exact hkeep hr rfl
  · split at hs
    · rename_i stamp g _ _
      split at hs
      · obtain ⟨r,hr,heq⟩ := Option.map_eq_some_iff.mp hs
        obtain ⟨rfl,-⟩ := Prod.mk.inj heq
        exact hkeep hr rfl
      · rename_i frame _
        obtain ⟨r,hr,heq⟩ := Option.map_eq_some_iff.mp hs
        obtain ⟨rfl,-⟩ := Prod.mk.inj heq
        simpa using reader_effort (c:=c) (g:=g) id (· ++ [frame])
          (readerStep_move hr) (by simp [ReaderInput.takes])
          (by simp [ReaderInput.gives,Nat.add_mul])
    · obtain ⟨r,hr,heq⟩ := Option.map_eq_some_iff.mp hs
      obtain ⟨rfl,-⟩ := Prod.mk.inj heq
      exact hkeep hr rfl

/-- With four loops every step but a control tick uses up effort. -/
theorem systemStep_effort (hmode : ∀ h, (c.args h).mode = .fourLoops) {a : Action N}
    (hun : a.untimed = true) (hs : systemStep c s a = some (s',ev)) : effort c s' < effort c s := by
  have hswitch : ∀ {b : SwitchAction N}, (∀ h i, b ≠ .reader h i) →
      (switchStep s.switch b).map (fun r => ({ s with switch := r.1 },r.2)) = some (s',ev) →
      effort c s' < effort c s := by
    intro b hb hs
    obtain ⟨r,hr,heq⟩ := Option.map_eq_some_iff.mp hs
    obtain ⟨rfl,-⟩ := Prod.mk.inj heq
    have hless := (switchStep_move hr).effort hb
    simp only [effort]
    omega
  cases a with
  | accept g => exact hswitch (by simp) hs
  | start h => exact hswitch (by simp) hs
  | main => exact hswitch (by simp) hs
  | host h a =>
    obtain ⟨v,hr,rfl⟩ := systemStep_host hs
    refine setHost_effort (hostStep_effort (hmode h) ?_ hr)
    rintro now ts rfl
    cases hun
  | write h => exact hostWrite_effort (hmode h) hs
  | receive h => exact hostReceive_effort (hmode h) hs
  | reader h ts => exact systemReader_effort hs

/-- Without a control tick the system takes only so many steps, in whatever order. -/
theorem untimed_steps_bounded (c : Config N) (hmode : ∀ h, (c.args h).mode = .fourLoops)
    {s t : System N} {n : ℕ} {ev : List (Event N)}
    (hsteps : Steps (systemMachine c) (fun _ a => a.untimed = true) s n t ev) :
    n + effort c t ≤ effort c s :=
  hsteps.bounded fun _ _ _ _ hun hs => systemStep_effort hmode hun hs

/-- Three tokens are admitted, two of them attended to, and the first is on its way. -/
def busyRun : List (Action 1) :=
  [.accept 0,.start 0] ++ soloPush 4 ++ soloCompute ++ soloCompute ++ soloSend

/-- The switch handles the first token and the host the answers to it; the second one follows. -/
def busyRest : List (Action 1) := soloReader 9 ++ soloRead ++ soloRead ++ soloSend

theorem untimed_steps_bounded_sample : ∃ (s t : System 1) (hist ev : List (Event 1)),
    Run (systemMachine (soloConfig .fourLoops 3)) s hist ∧
    (s.host 0).computeQueue.items.length = 1 ∧ (s.host 0).sendQueue.items.length = 1 ∧
    (s.toSwitch 0).length = 1 ∧
    Steps (systemMachine (soloConfig .fourLoops 3)) (fun _ a => a.untimed = true) s 18 t ev ∧
    18 + effort (soloConfig .fourLoops 3) t ≤ effort (soloConfig .fourLoops 3) s := by
  obtain ⟨s,hist,hrun,hp⟩ := exists_run_of_replay (systemMachine (soloConfig .fourLoops 3))
    (fun _ _ => true) (System.initial _) busyRun
    (fun s _ => decide ((s.host 0).computeQueue.items.length = 1 ∧
        (s.host 0).sendQueue.items.length = 1 ∧ (s.toSwitch 0).length = 1) &&
      (replay (systemMachine (soloConfig .fourLoops 3)) (fun _ a => a.untimed) s busyRest).isSome)
    rfl (by decide +kernel)
  simp only [Bool.and_eq_true,decide_eq_true_eq] at hp
  obtain ⟨⟨hcompute,hsend,hwire⟩,hrest⟩ := hp
  obtain ⟨⟨t,ev⟩,ht⟩ := Option.isSome_iff_exists.mp hrest
  have hsteps := replay_steps ht
  exact ⟨s,t,hist,ev,hrun.run,hcompute,hsend,hwire,hsteps,
    untimed_steps_bounded _ (fun _ => rfl) hsteps⟩

end INA2A

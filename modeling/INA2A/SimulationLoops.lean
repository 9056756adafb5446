import INA2A.SimulationHost

/-! The computing, sending and reading parts of a host, and its end of the connection, keep
the relation. -/
namespace INA2A

open ByteBuffers BitWords EventMachine Inventory

variable {N : ℕ} {c : Config N} {s s' : System N} {p p' : Progress (Fin N) U64} {h : Fin N}

theorem HostRunning.leaveCompute {v : Host} (hv : HostRunning v) (env : HostEnv) :
    HostRunning (leaveCompute env v) := by
  have hturn : (INA2A.leaveCompute env v).turn ≠ .exited := by
    simp only [INA2A.leaveCompute]
    split_ifs
    · simp
    · exact hv.turn
  exact { hv with computing := by simp [INA2A.leaveCompute], turn := hturn }

theorem HostMatches.leaveCompute {v : Host} (hm : HostMatches c p h v) (env : HostEnv) :
    HostMatches c p h (leaveCompute env v) := hm.of_same rfl rfl rfl rfl rfl

theorem compute_pop (hf : Follows c s p) {t : ComputeTask} {rest : List ComputeTask}
    (hidle : ((s.host h).computing.items : Multiset (Item N)) = 0)
    (hq : (s.host h).computeQueue.items = t::rest) :
    Follows c (s.setHost h { s.host h with
      computeQueue := { (s.host h).computeQueue with items := rest }, computing := .task t }) p := by
  refine hf.idle ?_ ((hf.hosts h).of_same rfl rfl rfl rfl rfl) ?_
  · simp only [Host.items,hidle,hq,bag_cons]
    simp only [Computing.items]
    abel
  · intro hall
    have hrun := hf.hostRunning hall h
    exact { hrun with computing := by simp, computeOpen := hrun.computeOpen }

theorem expertResult_of_input (c : Config N) (o : Fin N) (i : ℕ) (e : Fin N) (ts ts' : U64) :
    expertResultMsg (c.env e) (c.input o i e ts) ts' = c.result o i e ts' := rfl

theorem compute_attention (hf : Follows c s p) (hp : Orderly c.plan p) {i : ℕ} {ts : U64}
    (hk : (s.host h).computing = .task (.localAttention i)) :
    Simulated c p (s.setHost h (processComputeTask (c.env h) (s.host h) ts (.localAttention i)))
      [] := by
  have hx : Item.task i ∈ items s h :=
    mem_items_of_host (by simp [Host.items,Computing.items,taskItem,hk])
  have hst := hf.of_task hx
  have hi : i < c.num h := hp.lt_num (by simp [hst])
  have hrun := hf.hostRunning (hf.notMarked hp hx (by simp)) h
  simp only [processComputeTask,workload_lt c hi]
  refine Simulated.one (.token h i [] (.attended ts) (by rw [hst]; exact .attend ts)) rfl
    (hf.tokenMove hi (by simp [hst,Stage.live,Stage.early,Stage.late]) rfl
      (fun g hg => by simp [hg]) (items_setHost ?_) ?_ ?_)
  · simp only [Host.items,Computing.items,hk,hst,Stage.items,taskItem,Config.dispatch]
    abel
  · rw [setHost_host_self]
    refine HostMatches.of_same ((hf.hosts h).updateToken (i := i) (σ := .attended ts) ?_)
      rfl rfl rfl rfl rfl
    intro st hmatch
    rw [hst] at hmatch
    constructor <;> simp [Stage.admitted,Stage.attentionDone,Stage.dispatchAcked,
      Stage.pullInflight,Stage.isDone,hmatch.admitted,hmatch.attentionQueued,
      hmatch.dispatchAcked,hmatch.pullInflight,hmatch.combineDone]
  · intro _
    rw [setHost_host_self]
    exact { hrun with computing := by simp }

theorem compute_expert (hf : Follows c s p) (hp : Orderly c.plan p) {m : Msg} {ts : U64}
    (hk : (s.host h).computing = .task (.expertMlp m)) :
    Simulated c p (s.setHost h (processComputeTask (c.env h) (s.host h) ts (.expertMlp m))) [] := by
  have hx : Item.work m ∈ items s h :=
    mem_items_of_host (by simp [Host.items,Computing.items,taskItem,hk])
  obtain ⟨o,i,stamp,hj,rfl⟩ := hf.of_work hx
  have hi : i < c.num o := hp.lt_num_of_job (e := h) (by simp [hj])
  have hrun := hf.hostRunning (hf.notMarked hp hx (by simp)) h
  simp only [processComputeTask,expertResult_of_input]
  refine Simulated.one (.job o i h [] (.made ts) (by rw [hj]; exact .compute stamp ts)) rfl
    (hf.jobMove hi (by simp [hj,Job.pending]) rfl (fun g hg => by simp [hg]) (items_setHost ?_) ?_ ?_)
  · simp only [Host.items,Computing.items,hk,hj,Job.items,taskItem]
    abel
  · rw [setHost_host_self]
    exact (hf.hosts h).of_same rfl rfl rfl rfl rfl
  · intro _
    rw [setHost_host_self]
    exact { hrun with computing := by simp }

theorem compute_push (hf : Follows c s p) (hp : Orderly c.plan p) {m : Msg} {v : Host}
    {ev : List (Event N)} (hk : (s.host h).computing = .pushing m)
    (hs : pushSend h (leaveCompute (c.env h) (s.host h)) m = (v,ev)) :
    Simulated c p (s.setHost h v) ev := by
  have hx : Item.hand m ∈ items s h :=
    mem_items_of_host (by simp [Host.items,Computing.items,hk])
  have hrun := hf.hostRunning (hf.notMarked hp hx (by simp)) h
  have hopen : (leaveCompute (c.env h) (s.host h)).sendQueue.closed = false := hrun.sendOpen
  have hrunning : HostRunning { leaveCompute (c.env h) (s.host h) with
      sendQueue := (leaveCompute (c.env h) (s.host h)).sendQueue.push m } :=
    { hrun.leaveCompute (c.env h) with sendOpen := by simp [BlockingQueue.push,hopen] }
  have hitems : ({ leaveCompute (c.env h) (s.host h) with
      sendQueue := (leaveCompute (c.env h) (s.host h)).sendQueue.push m }.items :
        Multiset (Item N)) + {.hand m} = (s.host h).items + {.out m} := by
    simp only [Host.items,BlockingQueue.push,leaveCompute,hk,Computing.items,hrun.sendOpen,
      Bool.false_eq_true,if_false,bag_append,bag_cons,bag_nil]
    abel
  simp only [pushSend,hopen,Bool.false_eq_true,if_false,Prod.mk.injEq] at hs
  obtain ⟨rfl,rfl⟩ := hs
  rcases hf.of_hand hx with ⟨i,ts,hst,rfl⟩ | ⟨o,i,ts,hj,rfl⟩
  · have hi : i < c.num h := hp.lt_num (by simp [hst])
    refine Simulated.one (.token h i [.enq h (.dispatch i)] (.dispatching ts)
      (by rw [hst]; exact .enqDispatch ts)) (filterMap_enqueued (noteUp_dispatch c hi ts))
      (hf.tokenMove hi (by simp [hst,Stage.live,Stage.early,Stage.late]) rfl
        (fun g hg => by simp [hg]) (items_setHost ?_) ?_ ?_)
    · simpa only [hst,Stage.items] using hitems
    · rw [setHost_host_self]
      refine HostMatches.of_same (HostMatches.setStage (hf.hosts h) ?_) rfl rfl rfl rfl rfl
      simp [hst,Stage.admitted,Stage.attentionDone,Stage.dispatchAcked,Stage.pullInflight,
        Stage.isDone]
    · simpa using fun _ => hrunning
  · have hi : i < c.num o := hp.lt_num_of_job (e := h) (by simp [hj])
    refine Simulated.one (.job o i h [.enq h (.result o i)] (.out ts)
      (by rw [hj]; exact .enqResult ts)) (filterMap_enqueued (noteUp_result c hi ts h))
      (hf.jobMove hi (by simp [hj,Job.pending]) rfl (fun g hg => by simp [hg])
        (items_setHost ?_) ?_ ?_)
    · simpa only [hj,Job.items] using hitems
    · rw [setHost_host_self]
      exact (hf.hosts h).of_same rfl rfl rfl rfl rfl
    · simpa using fun _ => hrunning

theorem computeStep_simulated (hf : Follows c s p) (hp : Orderly c.plan p) {ts : U64} {v : Host}
    {ev : List (Event N)} (hs : computeStep h (c.env h) (s.host h) ts = some (v,ev)) :
    Simulated c p (s.setHost h v) ev := by
  have hm := hf.hosts h
  unfold computeStep at hs
  split at hs
  case h_1 hk =>
    by_cases hmode : (c.env h).mode = .allCombined
    · rw [if_pos hmode] at hs
      split at hs <;> simp only [Option.some.injEq,Prod.mk.injEq] at hs <;> obtain ⟨rfl,rfl⟩ := hs
      · refine .still (hf.idle ?_ (hm.leaveCompute _)
          fun hall => (hf.hostRunning hall h).leaveCompute _)
        simp [Host.items,leaveCompute,Computing.items,hk]
      · rename_i t rest hq
        exact .still (compute_pop hf (by simp [hk,Computing.items]) hq)
    · simp only [if_neg hmode,Option.some.injEq,Prod.mk.injEq] at hs
      obtain ⟨rfl,rfl⟩ := hs
      refine .still (hf.idle ?_ (hm.of_same rfl rfl rfl rfl rfl) ?_)
      · cases hrunning : (s.host h).running <;> simp [Host.items,Computing.items,hk]
      · intro hall
        have hrun := hf.hostRunning hall h
        exact { hrun with computing := by simp [hrun.running] }
  case h_2 hk =>
    split at hs
    · split_ifs at hs with hclosed
      simp only [Option.some.injEq,Prod.mk.injEq] at hs
      obtain ⟨rfl,rfl⟩ := hs
      refine .still (hf.idle ?_ (hm.of_same rfl rfl rfl rfl rfl) ?_)
      · simp [Host.items,Computing.items,hk]
      · intro hall
        have hrun := hf.hostRunning hall h
        simp [hrun.computeOpen] at hclosed
    · rename_i t rest hq
      simp only [Option.some.injEq,Prod.mk.injEq] at hs
      obtain ⟨rfl,rfl⟩ := hs
      exact .still (compute_pop hf (by simp [hk,Computing.items]) hq)
  case h_3 t hk =>
    have hx : taskItem t ∈ items s h :=
      mem_items_of_host (by simp [Host.items,Computing.items,hk])
    have hrun := hf.hostRunning (hf.notMarked hp hx (by cases t <;> simp [taskItem])) h
    rw [if_pos hrun.running] at hs
    simp only [Option.some.injEq,Prod.mk.injEq] at hs
    obtain ⟨rfl,rfl⟩ := hs
    cases t with
    | localAttention i => exact compute_attention hf hp hk
    | expertMlp m => exact compute_expert hf hp hk
  case h_4 m hk => exact compute_push hf hp hk (Option.some.inj hs)
  case h_5 => cases hs

theorem send_pop (hf : Follows c s p) {m : Msg} {rest : List Msg} {t : Turn}
    (hidle : ((s.host h).sending.items : Multiset (Item N)) = 0)
    (hq : (s.host h).sendQueue.items = m::rest) (ht : (s.host h).turn ≠ .exited → t ≠ .exited) :
    Follows c (s.setHost h { s.host h with
      sendQueue := { (s.host h).sendQueue with items := rest }
      sending := .writing m
      turn := t }) p := by
  refine hf.idle ?_ ((hf.hosts h).of_same rfl rfl rfl rfl rfl) ?_
  · simp only [Host.items,hidle,hq,bag_cons]
    simp only [Sending.items]
    abel
  · intro hall
    have hrun := hf.hostRunning hall h
    exact { hrun with sending := by simp, sendOpen := hrun.sendOpen, turn := ht hrun.turn }

theorem sendStep_simulated (hf : Follows c s p) {v : Host}
    (hs : sendStep (c.env h) (s.host h) = some v) : Simulated c p (s.setHost h v) [] := by
  have hm := hf.hosts h
  have hreading : Follows c (s.setHost h { s.host h with turn := .read }) p :=
    hf.idle rfl (hm.of_same rfl rfl rfl rfl rfl) fun hall =>
      { hf.hostRunning hall h with turn := by simp }
  unfold sendStep at hs
  split at hs
  case h_1 hk =>
    by_cases hmode : (c.env h).mode = .fourLoops
    · rw [if_pos hmode] at hs
      obtain rfl := Option.some.inj hs
      refine .still (hf.idle ?_ (hm.of_same rfl rfl rfl rfl rfl) ?_)
      · cases hrunning : (s.host h).running <;> simp [Host.items,Sending.items,hk]
      · intro hall
        have hrun := hf.hostRunning hall h
        exact { hrun with sending := by simp [hrun.running] }
    · rw [if_neg hmode] at hs
      split at hs
      · rename_i left m rest hturn hq
        split_ifs at hs with hrunning <;> obtain rfl := Option.some.inj hs
        · exact .still (send_pop hf (by simp [hk,Sending.items]) hq (by simp))
        · exact .still hreading
      · obtain rfl := Option.some.inj hs
        exact .still hreading
      · cases hs
  case h_2 hk =>
    split at hs
    · split_ifs at hs with hclosed
      obtain rfl := Option.some.inj hs
      refine .still (hf.idle ?_ (hm.of_same rfl rfl rfl rfl rfl) ?_)
      · simp [Host.items,Sending.items,hk]
      · intro hall
        simp [(hf.hostRunning hall h).sendOpen] at hclosed
    · rename_i m rest hq
      obtain rfl := Option.some.inj hs
      exact .still (send_pop (t := (s.host h).turn) hf (by simp [hk,Sending.items]) hq id)
  case h_3 => cases hs

theorem leaveRead_eq (env : HostEnv) (v : Host) :
    ∃ t, leaveRead env v = { v with reading := .top, turn := t } ∧
      (v.running = true → v.turn ≠ .exited → t ≠ .exited) := by
  unfold leaveRead
  cases env.mode with
  | fourLoops => exact ⟨v.turn,rfl,fun _ ht => ht⟩
  | ioCombined => exact ⟨_,rfl,fun hr _ => by simp [hr]⟩
  | allCombined => exact ⟨_,rfl,fun hr _ => by simp [hr]⟩

theorem HostRunning.leaveRead {v : Host} (hv : HostRunning v) (env : HostEnv) :
    HostRunning (leaveRead env v) := by
  obtain ⟨t,heq,ht⟩ := leaveRead_eq env v
  rw [heq]
  exact { hv with reading := by simp, turn := ht hv.running hv.turn }

theorem HostMatches.leaveRead {v : Host} (hm : HostMatches c p h v) (env : HostEnv) :
    HostMatches c p h (leaveRead env v) := by
  obtain ⟨t,heq,-⟩ := leaveRead_eq env v
  rw [heq]
  exact hm.of_same rfl rfl rfl rfl rfl

theorem leaveRead_items (env : HostEnv) {v : Host} {m : Msg} (hv : v.reading = .got m) :
    ((leaveRead env v).items : Multiset (Item N)) + {.down m} = v.items := by
  obtain ⟨t,heq,-⟩ := leaveRead_eq env v
  rw [heq]
  simp only [Host.items,hv,Reading.items]
  abel

theorem tokenIndexOf_eq (hm : HostMatches c p h (s.host h)) {i : ℕ} (hi : i < c.num h) :
    tokenIndexOf (s.host h) (BitVec.ofNat 64 i) = some i := by
  have hlt := num_lt c h
  have hint : ((BitVec.ofNat 64 i).setWidth 32).toInt = i := by
    rw [BitVec.toInt_eq_toNat_of_lt] <;>
      rw [BitVec.toNat_setWidth,BitVec.toNat_ofNat,Nat.mod_eq_of_lt (b := 2 ^ 64) (by omega),
        Nat.mod_eq_of_lt (by omega)]
    omega
  have hsize : int32 (s.host h).tokenStates.length = c.num h := by
    rw [hm.length]
    exact int32_eq (by omega) (by omega)
  simp only [tokenIndexOf,hint,hsize]
  rw [if_pos ⟨by omega,by exact_mod_cast hi⟩]
  simp

/-- A reply about token `i` has been handled. -/
theorem read_reply (hf : Follows c s p) (hp : Orderly c.plan p) {m : Msg} {i : ℕ}
    {σ σ' : Stage (Fin N) U64} {f : TokenWindowState → TokenWindowState}
    (hk : (s.host h).reading = .got m) (hst : p.stage h i = σ)
    (hstep : TokenStep h i σ [] σ') (hlive : σ'.live = σ.live) (hitems : σ.items c h i = {.down m})
    (hitems' : σ'.items c h i = 0)
    (hf' : ∀ st, TokenMatches c h i σ st → TokenMatches c h i σ' (f st)) :
    Simulated c p (s.setHost h (leaveRead (c.env h)
      (updateToken (s.host h) (BitVec.ofNat 64 i) f))) [] := by
  have hx : Item.down m ∈ items s h := mem_items_of_host (by simp [Host.items,Reading.items,hk])
  subst hst
  have hi : i < c.num h := hp.lt_num hstep.frame.2.2.2.2.1
  have hm := hf.hosts h
  have hup : updateToken (s.host h) (BitVec.ofNat 64 i) f =
      { s.host h with tokenStates := updateTokens (s.host h).tokenStates [i] f } := by
    simp only [updateToken,tokenIndexOf_eq hm hi]
  rw [hup]
  refine Simulated.one (.token h i [] σ' hstep) rfl (hf.tokenMove hi hlive rfl
    (fun g hg => by simp [hg]) (items_setHost ?_) ?_ ?_)
  · rw [hitems,hitems',add_zero]
    exact leaveRead_items (c.env h) hk
  · rw [setHost_host_self]
    exact (hm.updateToken hf').leaveRead _
  · intro hall
    have hrun := hf.hostRunning hall h
    rw [setHost_host_self]
    refine HostRunning.leaveRead ?_ _
    exact { hrun with }

theorem read_ack (hf : Follows c s p) (hp : Orderly c.plan p) {i : ℕ} {ts : U64}
    (hk : (s.host h).reading = .got (c.ack h i ts)) (hst : p.stage h i = .acking ts) :
    Simulated c p (s.setHost h (leaveRead (c.env h) (updateToken (s.host h)
      (BitVec.ofNat 64 i) fun st => { st with dispatchAcked := true }))) [] := by
  refine read_reply hf hp hk hst (.acked ts) rfl rfl rfl ?_
  intro st hmatch
  constructor <;> simp [Stage.admitted,Stage.attentionDone,Stage.dispatchAcked,
    Stage.pullInflight,Stage.isDone,hmatch.admitted,hmatch.attentionQueued,hmatch.attentionDone,
    hmatch.dispatchEnqueued,hmatch.pullInflight,hmatch.combineDone]

theorem read_notReady (hf : Follows c s p) (hp : Orderly c.plan p) {i now : ℕ} {ts : U64}
    (hk : (s.host h).reading = .got (c.notReady h i ts)) (hst : p.stage h i = .refused ts) :
    Simulated c p (s.setHost h (leaveRead (c.env h) (updateToken (s.host h)
      (BitVec.ofNat 64 i) fun st => { st with
        pullInflight := false
        pullAttempts := st.pullAttempts + 1
        nextPullTime := now + 10000000 }))) [] := by
  refine read_reply hf hp hk hst (.refused ts) rfl rfl rfl ?_
  intro st hmatch
  constructor <;> simp [Stage.admitted,Stage.attentionDone,Stage.dispatchAcked,
    Stage.pullInflight,Stage.isDone,hmatch.admitted,hmatch.attentionQueued,hmatch.attentionDone,
    hmatch.dispatchEnqueued,hmatch.dispatchAcked,hmatch.combineDone]

theorem read_combined (hf : Follows c s p) (hp : Orderly c.plan p) {i : ℕ} {ts : U64}
    (hk : (s.host h).reading = .got (c.combined h i ts)) (hst : p.stage h i = .returning ts) :
    Simulated c p (s.setHost h (leaveRead (c.env h) (updateToken (s.host h)
      (BitVec.ofNat 64 i) fun st => { st with
        combineDone := true
        pullInflight := false
        combinePayload := (c.combined h i ts).payload }))) [] := by
  refine read_reply hf hp hk hst (.complete ts) rfl rfl rfl ?_
  intro st hmatch
  constructor <;> simp [Stage.admitted,Stage.attentionDone,Stage.dispatchAcked,
    Stage.pullInflight,Stage.isDone,hmatch.admitted,hmatch.attentionQueued,hmatch.attentionDone,
    hmatch.dispatchEnqueued,hmatch.dispatchAcked]
  rfl

theorem read_input (hf : Follows c s p) (hp : Orderly c.plan p) {o : Fin N} {i : ℕ} {ts : U64}
    (hk : (s.host h).reading = .got (c.input o i h ts)) (hj : p.job o i h = .input ts) {v : Host}
    {ev : List (Event N)} (hs : pushCompute (s.host h) (.expertMlp (c.input o i h ts)) = (v,ev)) :
    Simulated c p (s.setHost h (leaveRead (c.env h) v)) ev := by
  have hx : Item.down (c.input o i h ts) ∈ items s h :=
    mem_items_of_host (by simp [Host.items,Reading.items,hk])
  have hi : i < c.num o := hp.lt_num_of_job (e := h) (by simp [hj])
  have hall : ¬p.allMarked := by
    intro hall
    rcases (hp.quiescent hall o i).2 h with hq | hq <;> simp [hj] at hq
  have hrun := hf.hostRunning hall h
  simp only [pushCompute,hrun.computeOpen,Bool.false_eq_true,if_false,Prod.mk.injEq] at hs
  obtain ⟨rfl,rfl⟩ := hs
  refine Simulated.one (.job o i h [] (.work ts) (by rw [hj]; exact .arrive ts)) rfl
    (hf.jobMove hi (by simp [hj,Job.pending]) rfl (fun g hg => by simp [hg]) (items_setHost ?_) ?_ ?_)
  · simp only [hj,Job.items]
    refine (leaveRead_items (v := { s.host h with
      computeQueue := (s.host h).computeQueue.push (.expertMlp (c.input o i h ts)) })
      (c.env h) hk).trans ?_
    simp only [Host.items,BlockingQueue.push,hrun.computeOpen,Bool.false_eq_true,if_false,
      bag_append,bag_cons,bag_nil,taskItem]
    abel
  · rw [setHost_host_self]
    refine HostMatches.leaveRead ?_ _
    exact (hf.hosts h).of_same rfl rfl rfl rfl rfl
  · intro _
    rw [setHost_host_self]
    refine HostRunning.leaveRead ?_ _
    exact { hrun with computeOpen := by simp [BlockingQueue.push,hrun.computeOpen] }

theorem read_finish (hf : Follows c s p) (hall : p.allMarked) {rid ts : U64}
    (hk : (s.host h).reading = .got (broadcastFinishMsg rid h ts)) :
    Simulated c p (s.setHost h (exitRead (c.env h) (shutdownRuntime (s.host h)))) [] := by
  have hitems := items_setHost (s := s) (h := h) (A := {.down (broadcastFinishMsg rid h ts)}) (B := 0)
    (v := exitRead (c.env h) (shutdownRuntime (s.host h))) (by
      simp only [Host.items,exitRead,shutdownRuntime,BlockingQueue.close,hk,Reading.items]
      abel)
  refine .still (hf.hostSide (h := h) (SameView.refl p) rfl (fun g hg => by simp [hg]) ?_ ?_ ?_
    (fun g _ => hf.hosts g) (fun hne => absurd hall hne))
  · exact hf.stocked.untagged hitems (by simp [Item.tag,noteTag,noteDown,Note.tag,broadcastFinishMsg,
      MsgHeader.kind,MsgHeader.new]) (by simp)
  · intro g x hx _
    simpa using mem_of_exchange hitems hx
  · rw [setHost_host_self]
    exact (hf.hosts h).of_same rfl rfl rfl rfl rfl

theorem readStep_simulated (hf : Follows c s p) (hp : Orderly c.plan p) {now : ℕ} {v : Host}
    {ev : List (Event N)} (hs : readStep (c.env h) (s.host h) now = some (v,ev)) :
    Simulated c p (s.setHost h v) ev := by
  have hm := hf.hosts h
  unfold readStep at hs
  split at hs
  case h_1 hk =>
    split_ifs at hs with hmode hrunning <;> simp only [Option.some.injEq,Prod.mk.injEq] at hs <;>
      obtain ⟨rfl,rfl⟩ := hs
    · refine .still (hf.idle ?_ (hm.of_same rfl rfl rfl rfl rfl) fun hall => ?_)
      · simp [Host.items,Reading.items,hk]
      · exact { hf.hostRunning hall h with reading := by simp }
    · refine .still (hf.idle ?_ (hm.of_same rfl rfl rfl rfl rfl) fun hall => ?_)
      · simp [Host.items,Reading.items,hk]
      · exact absurd (hf.hostRunning hall h).running hrunning
    · refine .still (hf.idle ?_ (hm.of_same rfl rfl rfl rfl rfl) fun hall => ?_)
      · simp [Host.items,Reading.items,hk]
      · exact { hf.hostRunning hall h with reading := by simp }
  case h_2 hk =>
    split_ifs at hs with hmode
    simp only [Option.some.injEq,Prod.mk.injEq] at hs
    obtain ⟨rfl,rfl⟩ := hs
    refine .still (hf.idle ?_ (hm.leaveRead _) fun hall => (hf.hostRunning hall h).leaveRead _)
    obtain ⟨t,heq,-⟩ := leaveRead_eq (c.env h) (s.host h)
    simp [heq,Host.items,Reading.items,hk]
  case h_3 m hk =>
    have hx : Item.down m ∈ items s h :=
      mem_items_of_host (by simp [Host.items,Reading.items,hk])
    simp only [Option.some.injEq,Prod.mk.injEq] at hs
    obtain ⟨rfl,rfl⟩ := hs
    rcases hf.of_down hx with ⟨i,ts,hst,rfl⟩ | ⟨i,ts,hst,rfl⟩ | ⟨i,ts,hst,rfl⟩ | ⟨o,i,ts,hj,rfl⟩ |
      ⟨hall,rid,ts,rfl⟩
    · exact read_ack hf hp hk hst
    · exact read_notReady hf hp hk hst
    · exact read_combined hf hp hk hst
    · exact read_input hf hp hk hj rfl
    · exact read_finish hf hall hk
  case h_4 => cases hs

theorem hostStep_simulated (hf : Follows c s p) (hp : Orderly c.plan p) {a : HostAction}
    {v : Host} {ev : List (Event N)} (hs : hostStep h (c.env h) (s.host h) a = some (v,ev)) :
    Simulated c p (s.setHost h v) ev := by
  cases hostStep_move hs with
  | tick _ hw => exact tickStep_simulated hf hp hw
  | push _ hw => exact controlPush_simulated hf hp hw
  | compute _ hw => exact computeStep_simulated hf hp hw
  | send _ hw => exact sendStep_simulated hf hw
  | read _ hw => exact readStep_simulated hf hp hw

theorem Follows.out_wellFormed (hf : Follows c s p) {m : Msg} (hx : Item.out m ∈ items s h) :
    m.WellFormed := by
  rcases hf.of_out hx with ⟨i,ts,-,rfl⟩ | ⟨i,ts,-,rfl⟩ | ⟨o,i,ts,-,rfl⟩ | ⟨ts,-,rfl⟩
  · exact dispatch_wellFormed c h i ts
  · exact pull_wellFormed c h i ts
  · exact result_wellFormed c o i h ts
  · exact finish_wellFormed c h ts

theorem Follows.wire_wellFormed (hf : Follows c s p) {m : Msg} (hx : Item.wire m ∈ items s h) :
    m.WellFormed := by
  rcases hf.of_wire hx with ⟨i,ts,-,rfl⟩ | ⟨i,ts,-,rfl⟩ | ⟨o,i,ts,-,rfl⟩ | ⟨ts,-,rfl⟩
  · exact dispatch_wellFormed c h i ts
  · exact pull_wellFormed c h i ts
  · exact result_wellFormed c o i h ts
  · exact finish_wellFormed c h ts

theorem Follows.down_wellFormed (hf : Follows c s p) {m : Msg} (hx : Item.down m ∈ items s h) :
    m.WellFormed := by
  rcases hf.of_down hx with ⟨i,ts,-,rfl⟩ | ⟨i,ts,-,rfl⟩ | ⟨i,ts,-,rfl⟩ | ⟨o,i,ts,-,rfl⟩ |
    ⟨-,rid,ts,rfl⟩
  · exact ack_wellFormed c h i ts
  · exact notReady_wellFormed c h i ts
  · exact combined_wellFormed c h i ts
  · exact input_wellFormed c o i h ts
  · exact broadcastFinish_wellFormed rid h ts

theorem items_write {m : Msg} {v : Host}
    (hv : (v.items : Multiset (Item N)) + {.out m} = (s.host h).items) :
    items { s.setHost h v with toSwitch := Function.update s.toSwitch h (s.toSwitch h ++ [m]) } +
      Pi.single h {.out m} = items s + Pi.single h {.wire m} := by
  apply exchange_of_place
  · intro g hg
    simp [items,System.setHost,hg]
  · simp only [items,System.setHost,Function.update_self,bag_append,bag_cons,bag_nil,← hv]
    abel

theorem Follows.hostWrite_move (hf : Follows c s p) {ev : List (Event N)}
    (hs : hostWrite c s h = some (s',ev)) : ∃ m, (s.host h).sending = .writing m ∧
      Item.out m ∈ items s h ∧ ev = [.toSwitch h m] ∧
      s' = { s.setHost h (wroteMsg (s.host h)) with
        toSwitch := Function.update s.toSwitch h (s.toSwitch h ++ [m]) } := by
  unfold hostWrite at hs
  split at hs
  case h_2 => cases hs
  case h_1 m hk =>
    have hx : Item.out m ∈ items s h :=
      mem_items_of_host (by simp [Host.items,Sending.items,hk])
    rw [(hf.out_wellFormed hx).srWrite] at hs
    obtain ⟨rfl,rfl⟩ := Prod.mk.inj (Option.some.inj hs)
    exact ⟨m,hk,hx,rfl,rfl⟩

theorem Follows.hostReceive_move (hf : Follows c s p) {ev : List (Event N)}
    (hs : hostReceive c s h = some (s',ev)) : ∃ frame rest, (s.host h).reading = .reading ∧
      s.toHost h = frame::rest ∧ ev = [] ∧
      s' = ({ s with toHost := Function.update s.toHost h rest } : System N).setHost h
        { s.host h with reading := .got frame } := by
  unfold hostReceive at hs
  split at hs
  case h_2 => cases hs
  case h_1 frame rest hk hq =>
    split_ifs at hs
    have hx : Item.down frame ∈ items s h := by
      simp only [items,Multiset.mem_add,hq]
      exact Or.inr (by simp)
    simp only [(hf.down_wellFormed hx).receive,Option.some.injEq,Prod.mk.injEq] at hs
    obtain ⟨rfl,rfl⟩ := hs
    exact ⟨frame,rest,hk,hq,rfl,rfl⟩

theorem hostWrite_simulated (hf : Follows c s p) (hp : Orderly c.plan p) {ev : List (Event N)}
    (hs : hostWrite c s h = some (s',ev)) : Simulated c p s' ev := by
  obtain ⟨m,hk,hx,rfl,rfl⟩ := hf.hostWrite_move hs
  have hrun := hf.hostRunning (hf.notMarked hp hx (by simp)) h
  have hm := hf.hosts h
  have hitems := items_write (s := s) (h := h) (m := m) (v := wroteMsg (s.host h)) (by
    simp only [Host.items,wroteMsg,hk,Sending.items]
    abel)
  have hmatch : HostMatches c p h (wroteMsg (s.host h)) := hm.of_same rfl rfl rfl rfl rfl
  have hrunning : HostRunning (wroteMsg (s.host h)) := { hrun with sending := by simp [wroteMsg] }
  have hoff : ∀ g, g ≠ h → (s.setHost h (wroteMsg (s.host h))).host g = s.host g :=
    fun g hg => by simp [hg]
  rcases hf.of_out hx with ⟨i,ts,hst,rfl⟩ | ⟨i,ts,hst,rfl⟩ | ⟨o,i,ts,hj,rfl⟩ | ⟨ts,hfin,rfl⟩
  · have hi : i < c.num h := hp.lt_num (by simp [hst])
    refine Simulated.one (.token h i [.up h (.dispatch i)] (.dispatched ts)
      (by rw [hst]; exact .sendDispatch ts)) (filterMap_toSwitch (noteUp_dispatch c hi ts))
      (hf.tokenMove hi (by simp [hst,Stage.live,Stage.early,Stage.late]) rfl hoff ?_ ?_ ?_)
    · simpa only [hst,Stage.items] using hitems
    · simp only [setHost_host_self]
      refine hmatch.setStage ?_
      simp [hst,Stage.admitted,Stage.attentionDone,Stage.dispatchAcked,Stage.pullInflight,
        Stage.isDone]
    · simpa using fun _ => hrunning
  · have hi : i < c.num h := hp.lt_num (by simp [hst])
    refine Simulated.one (.token h i [.up h (.pull i)] (.asked ts)
      (by rw [hst]; exact .sendPull ts)) (filterMap_toSwitch (noteUp_pull c hi ts))
      (hf.tokenMove hi (by simp [hst,Stage.live,Stage.early,Stage.late]) rfl hoff ?_ ?_ ?_)
    · simpa only [hst,Stage.items] using hitems
    · simp only [setHost_host_self]
      refine hmatch.setStage ?_
      simp [hst,Stage.admitted,Stage.attentionDone,Stage.dispatchAcked,Stage.pullInflight,
        Stage.isDone]
    · simpa using fun _ => hrunning
  · have hi : i < c.num o := hp.lt_num_of_job (e := h) (by simp [hj])
    refine Simulated.one (.job o i h [.up h (.result o i)] (.wire ts)
      (by rw [hj]; exact .sendResult ts)) (filterMap_toSwitch (noteUp_result c hi ts h))
      (hf.jobMove hi (by simp [hj,Job.pending]) rfl hoff ?_ ?_ ?_)
    · simpa only [hj,Job.items] using hitems
    · simpa using hmatch
    · simpa using fun _ => hrunning
  · refine Simulated.one (.close h [.up h .finish] (.wire ts)
      (by rw [hfin]; exact .sendFinish ts)) (filterMap_toSwitch rfl)
      (hf.finMove (by simp) (by simp [hfin]) rfl hoff ?_ ?_ ?_)
    · simpa only [hfin,Closing.items] using hitems
    · simp only [setHost_host_self]
      exact hmatch.setFin (by simp [hfin])
    · simpa using fun _ => hrunning

theorem hostReceive_simulated (hf : Follows c s p) {ev : List (Event N)}
    (hs : hostReceive c s h = some (s',ev)) : Simulated c p s' ev := by
  obtain ⟨frame,rest,hk,hq,rfl,rfl⟩ := hf.hostReceive_move hs
  have hitems : items (({ s with toHost := Function.update s.toHost h rest } :
      System N).setHost h { s.host h with reading := .got frame }) = items s := by
    funext g
    by_cases hg : g = h
    · subst hg
      simp only [items,System.setHost,Function.update_self,Host.items,hk,hq,bag_cons,
        Reading.items]
      abel
    · simp [items,System.setHost,hg]
  refine .still (hf.hostSide (h := h) (SameView.refl p) rfl (fun g hg => by simp [System.setHost,hg])
    ?_ ?_ ?_ (fun g _ => hf.hosts g) ?_)
  · rw [hitems]
    exact hf.stocked
  · rw [hitems]
    exact fun _ _ hx _ => hx
  · rw [setHost_host_self]
    exact (hf.hosts h).of_same rfl rfl rfl rfl rfl
  · intro hall
    rw [setHost_host_self]
    exact { hf.hostRunning hall h with reading := by simp }

end INA2A

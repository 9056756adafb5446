import INA2A.Pacing

/-! How far the window of a host gets with an arbitrary peer, and when the host says FINISH. -/
namespace INA2A

open ByteBuffers BitWords EventMachine Conveyors

variable {N : ℕ} {g : Fin N} {env : HostEnv} {v v' : Host} {hist ds : List Deed} {n i now : ℕ} {m : Msg}

/-- A COMBINE_RESULT for token `i` of `n` was handled. -/
def Answered (n i : ℕ) (hist : List Deed) : Prop := hist.any (Deed.handles n i .combineResult) = true

theorem Answered.more (ha : Answered n i hist) (ds : List Deed) : Answered n i (hist ++ ds) := by
  rw [Answered,List.any_append,ha]
  rfl

/-- Where the window stands, and what became of the FINISH. -/
structure Concluding (env : HostEnv) (hist : List Deed) (v : Host) : Prop where
  received : v.receivedCombines = v.windowBase
  base_le : v.windowBase ≤ env.numTokens
  answered : ∀ i < v.windowBase, Answered env.numTokens i hist
  window : v.nextToAdmit ≤ v.windowBase + env.windowSize.toNat
  finished : v.finishEnqueued = true → v.windowBase = env.numTokens
  once : (hist.filterMap (Deed.messageIn (Msg.ofKind .finish))).length +
    v.control.fin.toList.length ≤ if v.finishEnqueued then 1 else 0
  made : ∀ m ∈ hist.filterMap (Deed.messageIn (Msg.ofKind .finish)), ∃ ts, m = hostFinishMsg env ts

theorem Concluding.aside (hc : Concluding env hist v)
    (hbase : v'.windowBase = v.windowBase) (hreceived : v'.receivedCombines = v.receivedCombines)
    (hnext : v'.nextToAdmit = v.nextToAdmit) (hfin : v'.control.fin = v.control.fin)
    (henqueued : v'.finishEnqueued = v.finishEnqueued)
    (hnone : ds.filterMap (Deed.messageIn (Msg.ofKind .finish)) = []) :
    Concluding env (hist ++ ds) v' := by
  have hsame : (hist ++ ds).filterMap (Deed.messageIn (Msg.ofKind .finish)) =
      hist.filterMap (Deed.messageIn (Msg.ofKind .finish)) := by
    rw [List.filterMap_append,hnone,List.append_nil]
  constructor
  · rw [hreceived,hbase,hc.received]
  · rw [hbase]
    exact hc.base_le
  · intro i hi
    rw [hbase] at hi
    exact (hc.answered i hi).more ds
  · rw [hnext,hbase]
    exact hc.window
  · rw [henqueued,hbase]
    exact hc.finished
  · rw [hsame,hfin,henqueued]
    exact hc.once
  · rw [hsame]
    exact hc.made

theorem Answers.not_finish {t : ComputeTask} (ha : Answers env t m) : m.ofKind .finish = false := by
  cases t with
  | localAttention i =>
    obtain ⟨token,ts,-,rfl⟩ := ha
    rfl
  | expertMlp x =>
    obtain ⟨ts,rfl⟩ := ha
    rfl

theorem slide_answered (htokens : ∀ i < env.numTokens, v.tokenStates[i]? =
      some (tokenView env.numTokens i hist)) (hbase : v.windowBase ≤ env.numTokens) (now : ℕ) :
    ∃ k ≤ env.numTokens - v.windowBase,
      slideWindow (updateTokens v.tokenStates (needPull v now) fun st =>
        { st with pullInflight := true }) (env.numTokens - v.windowBase) v.windowBase =
        v.windowBase + k ∧
      ∀ j < k, Answered env.numTokens (v.windowBase + j) hist := by
  obtain ⟨k,hk,heq,hdone⟩ := slideWindow_eq (updateTokens v.tokenStates (needPull v now) fun st =>
    { st with pullInflight := true }) (env.numTokens - v.windowBase) v.windowBase
  refine ⟨k,hk,heq,fun j hj => ?_⟩
  obtain ⟨st,hst,hflag⟩ := hdone j hj
  rw [updateTokens_get _ (needPull_nodup v now),htokens _ (by omega)] at hst
  rw [Answered,← view_done]
  split_ifs at hst <;> obtain rfl := Option.some.inj hst <;> exact hflag

theorem Concluding.tick (hc : Concluding env hist v)
    (htokens : ∀ i < env.numTokens, v.tokenStates[i]? = some (tokenView env.numTokens i hist))
    (hrun : v.running = true) (hidle : v.control.idle = true) (now : ℕ) (ts : U64) (k : Turn) :
    Concluding env (hist ++ (needPull v now).map (Deed.asked · now))
      { controlTick env v now ts with turn := k } := by
  obtain ⟨k,hk,heq,hall⟩ := slide_answered htokens hc.base_le now
  have hnone : ((needPull v now).map (Deed.asked · now)).filterMap
      (Deed.messageIn (Msg.ofKind .finish)) = [] := by
    rw [filterMap_asked]
    simp [Deed.messageIn,Deed.message]
  have hbase := hc.base_le
  have honce := hc.once
  rw [Control.of_idle hidle] at honce
  simp only [controlTick,if_pos hrun,heq]
  constructor
  · simp only [hc.received]
    omega
  · dsimp only
    omega
  · intro j hj
    refine Answered.more ?_ _
    by_cases hlow : j < v.windowBase
    · exact hc.answered j hlow
    · dsimp only at hj
      have := hall (j - v.windowBase) (by omega)
      rwa [Nat.add_sub_of_le (by omega)] at this
  · have := hc.window
    dsimp only
    omega
  · dsimp only
    intro hfinished
    have hend := hc.finished
    have hreceived := hc.received
    simp only [Bool.or_eq_true,Bool.and_eq_true,decide_eq_true_eq] at hfinished
    rcases hfinished with hf | ⟨-,hf⟩
    · have := hend hf
      omega
    · omega
  · rw [List.filterMap_append,hnone,List.append_nil]
    generalize (hist.filterMap (Deed.messageIn (Msg.ofKind .finish))).length = count at honce ⊢
    cases hf : v.finishEnqueued with
    | true => simpa [hf,Control.fin] using honce
    | false =>
      obtain rfl : count = 0 := by simpa [hf,Control.fin] using honce
      simp only [Control.fin,Bool.not_false,Bool.true_and,Bool.false_or]
      split_ifs <;> simp
  · rw [List.filterMap_append,hnone,List.append_nil]
    exact hc.made

theorem admission_window (hW : -2 ^ 31 ≤ env.windowSize)
    (hwindow : v.nextToAdmit ≤ v.windowBase + env.windowSize.toNat) (fin : Option Msg) :
    (tryAdmitRawTokens env v fin).nextToAdmit ≤ v.windowBase + env.windowSize.toNat := by
  obtain ⟨n,-,heq,hlt⟩ := admittedIndices_eq env v.windowBase (env.numTokens - v.nextToAdmit)
    v.nextToAdmit
  simp only [tryAdmitRawTokens,heq,List.length_range']
  cases n with
  | zero => exact hwindow
  | succ n =>
    have hlast := hlt n (Nat.lt_succ_self n)
    have hint := int32_le (x := v.windowBase + env.windowSize) (by omega)
    omega

theorem Does.concluding (hd : Does env v ds v') (hp : Proper env v) (ho : OpenWhileRunning v)
    (hW : -2 ^ 31 ≤ env.windowSize)
    (htokens : ∀ i < env.numTokens, v.tokenStates[i]? = some (tokenView env.numTokens i hist))
    (hc : Concluding env hist v) : Concluding env (hist ++ ds) v' := by
  have hother (m : Msg) (hm : m.ofKind .finish = false) :
      (sendDeeds v m).filterMap (Deed.messageIn (Msg.ofKind .finish)) = [] := by
    rw [ho.sendsIn,hm]
    simp
  cases hd with
  | ticks now ts k hrun hidle => exact hc.tick htokens hrun hidle now ts _
  | pulls i rest moved fin token ts hcontrol =>
    exact hc.aside rfl rfl rfl (by rw [hcontrol]; rfl) rfl (hother _ rfl)
  | skips i rest moved fin hcontrol => exact hc.aside rfl rfl rfl (by rw [hcontrol]; rfl) rfl rfl
  | admits fin hcontrol =>
    have hnone : ((admittedIndices env v.windowBase (env.numTokens - v.nextToAdmit)
        v.nextToAdmit).map Deed.admitted).filterMap (Deed.messageIn (Msg.ofKind .finish)) = [] := by
      rw [filterMap_admitted]
      simp [Deed.messageIn,Deed.message]
    have haside : Concluding env _ { v with control := .admitted [] fin } :=
      hc.aside rfl rfl rfl (by rw [hcontrol]; rfl) rfl hnone
    exact { haside with window := admission_window hW hc.window fin }
  | stays fin hcontrol => exact hc.aside rfl rfl rfl (by rw [hcontrol]; rfl) rfl rfl
  | hands i tasks fin hcontrol =>
    refine hc.aside rfl rfl rfl (by rw [hcontrol]; rfl) rfl ?_
    rw [filterMap_giveDeeds]
    simp [Deed.messageIn,Deed.message]
  | finishes m hcontrol =>
    obtain ⟨ts,rfl⟩ := hp.fin m (by rw [hcontrol]; rfl)
    have honce := hc.once
    rw [hcontrol] at honce
    refine { hc with answered := fun i hi => (hc.answered i hi).more _, once := ?_, made := ?_ }
    · rw [List.filterMap_append,ho.sendsIn,List.length_append]
      have hlen : (if v.running && (hostFinishMsg env ts).ofKind .finish then
          [hostFinishMsg env ts] else []).length ≤ 1 := by split_ifs <;> simp
      simp only [Control.fin,Option.toList_some,Option.toList_none,List.length_singleton,
        List.length_nil] at honce ⊢
      omega
    · intro m hm
      rw [List.filterMap_append,ho.sendsIn] at hm
      rcases List.mem_append.mp hm with hm | hm
      · exact hc.made m hm
      · split_ifs at hm
        · exact ⟨ts,List.mem_singleton.mp hm⟩
        · cases hm
  | pushes m k hpushing =>
    obtain ⟨t,ht⟩ := hp.pushing m hpushing
    exact hc.aside rfl rfl rfl rfl rfl (hother m ht.not_finish)
  | hears m now =>
    refine hc.aside rfl rfl rfl rfl rfl ?_
    rw [filterMap_handleDeeds]
    simp [Deed.messageIn,Deed.message]
  | ends ds k r hds =>
    refine hc.aside rfl rfl rfl rfl rfl ?_
    rcases hds with rfl | ⟨m,now,rfl,-⟩ <;> rfl
  | _ => exact hc.aside rfl rfl rfl rfl rfl rfl

theorem run_concluding (hW : -2 ^ 31 ≤ env.windowSize) (hr : Run (peerMachine g env) v hist) :
    Concluding env hist v := by
  induction hr with
  | start hinit =>
    obtain rfl := hinit
    constructor <;> simp [Host.initial,Control.fin]
  | @next v v' hist ds a hr _ hs ih =>
    have ho := run_orderliness hr
    exact (peerStep_does hs).concluding ho.proper ho.opened hW (fun i hi => run_tokens hr hi) ih

theorem Does.wrote (hd : Does env v ds v') (hm : .wrote m ∈ ds) :
    ds = [.wrote m] ∧ v.sending = .writing m := by
  have hsent (m' : Msg) : Deed.wrote m ∉ sendDeeds v m' := by simp [sendDeeds]
  have hgiven (t : ComputeTask) : Deed.wrote m ∉ giveDeeds v t := by simp [giveDeeds]
  cases hd with
  | ticks => simp at hm
  | pulls | finishes | pushes => exact absurd hm (hsent _)
  | admits => simp at hm
  | hands => exact absurd hm (hgiven _)
  | attends => simp at hm
  | writes m' hwriting =>
    obtain rfl : m = m' := by simpa using hm
    exact ⟨rfl,hwriting⟩
  | hears m' =>
    rcases List.mem_cons.mp hm with heq | hm
    · cases heq
    · unfold handleDeeds at hm
      split_ifs at hm
      · exact absurd hm (hgiven _)
      · cases hm
  | ends ds k r hds =>
    rcases hds with rfl | ⟨m',t,rfl,-⟩ <;> simp at hm
  | _ => cases hm

theorem Concluding.of_queued (hc : Concluding env hist v)
    (hm : m ∈ hist.filterMap (Deed.messageIn (Msg.ofKind .finish))) :
    (∃ ts, m = hostFinishMsg env ts) ∧ ∀ i < env.numTokens, Answered env.numTokens i hist := by
  refine ⟨hc.made m hm,?_⟩
  have hpos := List.length_pos_of_mem hm
  have honce := hc.once
  have hfinished : v.finishEnqueued = true := by
    by_contra hnot
    rw [if_neg hnot] at honce
    omega
  intro i hi
  rw [← hc.finished hfinished] at hi
  exact hc.answered i hi

theorem run_finish (hW : -2 ^ 31 ≤ env.windowSize) (hr : Run (peerMachine g env) v hist)
    {pre post : List Deed} (heq : hist = pre ++ .wrote m::post) (hm : m.ofKind .finish = true) :
    (∃ ts, m = hostFinishMsg env ts) ∧ ∀ i < env.numTokens, Answered env.numTokens i pre := by
  obtain ⟨w,k,a,w',ds₁,ds₂,hrun,-,hs,rfl⟩ := hr.fired pre _ post heq
  obtain ⟨hds,hwriting⟩ := (peerStep_does hs).wrote (m:=m) (by simp)
  obtain rfl : ds₁ = [] := by
    have hlen := congrArg List.length hds
    simp only [List.length_append,List.length_cons,List.length_nil] at hlen
    exact List.eq_nil_of_length_eq_zero (by omega)
  have hloud : ¬Silent env w := by
    rintro (hs | ⟨-,hs,-⟩) <;> simp [hwriting] at hs
  have hqueued : m ∈ k.filterMap Deed.message :=
    (run_orderliness hrun).writing.mem hloud (by rw [hwriting]; exact List.mem_cons_self)
  rw [List.append_nil]
  refine (run_concluding hW hrun).of_queued ?_
  obtain ⟨d,hd,hmessage⟩ := List.mem_filterMap.mp hqueued
  exact List.mem_filterMap.mpr ⟨d,hd,by simp [Deed.messageIn,hmessage,Option.filter,hm]⟩

/-- Whatever its peer sends, a host writes FINISH at most once, and only after a COMBINE_RESULT
was handled for every one of its tokens; its window never passes a token without one. -/
theorem host_finishes (hW : -2 ^ 31 ≤ env.windowSize) (hr : Run (peerMachine g env) v hist) :
    (framesOf .finish hist).length ≤ 1 ∧
    (∀ pre m post, hist = pre ++ .wrote m::post → m.ofKind .finish = true →
      (∃ ts, m = hostFinishMsg env ts) ∧ ∀ i < env.numTokens, Answered env.numTokens i pre) ∧
    v.receivedCombines = v.windowBase ∧ v.windowBase ≤ env.numTokens ∧
    (∀ i < v.windowBase, Answered env.numTokens i hist) ∧
    v.nextToAdmit ≤ v.windowBase + env.windowSize.toNat := by
  have hc := run_concluding hW hr
  refine ⟨?_,?_,hc.received,hc.base_le,hc.answered,hc.window⟩
  · have hle := ((run_orderliness hr).sent (Msg.ofKind .finish)).length_le
    have honce := hc.once
    unfold framesOf
    split_ifs at honce <;> omega
  · exact fun pre m post heq hm => run_finish hW hr heq hm

theorem host_finishes_sample : ∃ v hist, Run (peerMachine (0 : Fin 1) lonelyHost) v hist ∧
    (framesOf .finish hist).length = 1 ∧ (framesOf .finish hist).length ≤ 1 ∧
    (∀ pre m post, hist = pre ++ .wrote m::post → m.ofKind .finish = true →
      (∃ ts, m = hostFinishMsg lonelyHost ts) ∧ ∀ i < 1, Answered 1 i pre) ∧
    v.receivedCombines = v.windowBase ∧ v.windowBase ≤ 1 ∧
    (∀ i < v.windowBase, Answered 1 i hist) ∧ v.nextToAdmit ≤ v.windowBase + 1 := by
  obtain ⟨v,hist,hrun,hp⟩ := exists_run_of_replay (peerMachine (0 : Fin 1) lonelyHost)
    (fun _ _ => true) (Host.initial _) earlyRun
    (fun _ hist => decide ((framesOf .finish hist).length = 1)) rfl (by decide +kernel)
  exact ⟨v,hist,hrun.run,of_decide_eq_true hp,host_finishes (by decide) hrun.run⟩

end INA2A

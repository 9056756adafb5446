import INA2A.Contract

/-! Each token of a host as a state machine of its own, driven by what was done about it, and
when a host may ask for its result, whatever the peer answers. -/
namespace INA2A

open ByteBuffers BitWords EventMachine

variable {N : ℕ} {g : Fin N} {env : HostEnv} {v v' : Host} {hist ds : List Deed} {n i now : ℕ}
  {m : Msg}

/-- The token that `global_idx` names, of `n`. -/
def indexIn (n : ℕ) (g : U64) : Option ℕ :=
  let idx := (g.setWidth 32).toInt
  if 0 ≤ idx ∧ idx < int32 n then some idx.toNat else none

theorem tokenIndexOf_indexIn (v : Host) (g : U64) : tokenIndexOf v g = indexIn v.tokenStates.length g :=
  rfl

/-- What a deed does to token `i` of `n`. -/
def TokenWindowState.after (n i : ℕ) (st : TokenWindowState) : Deed → TokenWindowState
  | .admitted j => if j = i then { st with admitted := true, attentionQueued := true } else st
  | .attended j => if j = i then { st with attentionDone := true, dispatchEnqueued := true } else st
  | .asked j _ => if j = i then { st with pullInflight := true } else st
  | .handled m now => if indexIn n m.header.globalIdx = some i then replyWrite m now st else st
  | _ => st

def tokenView (n i : ℕ) (hist : List Deed) : TokenWindowState :=
  hist.foldl (TokenWindowState.after n i) .initial

theorem foldl_aside {f : TokenWindowState → Deed → TokenWindowState}
    (hf : ∀ d ∈ ds, ∀ st, f st d = st) (st : TokenWindowState) : ds.foldl f st = st := by
  induction ds generalizing st with
  | nil => rfl
  | cons d ds ih =>
    rw [List.foldl_cons,hf d List.mem_cons_self]
    exact ih (fun e he => hf e (List.mem_cons_of_mem d he)) st

theorem foldl_asked (l : List ℕ) (now : ℕ) (st : TokenWindowState) :
    (l.map (Deed.asked · now)).foldl (TokenWindowState.after n i) st =
      if i ∈ l then { st with pullInflight := true } else st := by
  induction l generalizing st with
  | nil => rfl
  | cons j l ih =>
    rw [List.map_cons,List.foldl_cons,ih]
    by_cases hj : j = i
    · subst hj
      simp [TokenWindowState.after]
    · simp [TokenWindowState.after,hj,Ne.symm hj]

theorem foldl_admitted (l : List ℕ) (st : TokenWindowState) :
    (l.map Deed.admitted).foldl (TokenWindowState.after n i) st =
      if i ∈ l then { st with admitted := true, attentionQueued := true } else st := by
  induction l generalizing st with
  | nil => rfl
  | cons j l ih =>
    rw [List.map_cons,List.foldl_cons,ih]
    by_cases hj : j = i
    · subst hj
      simp [TokenWindowState.after]
    · simp [TokenWindowState.after,hj,Ne.symm hj]

theorem foldl_sent (v : Host) (m : Msg) (st : TokenWindowState) :
    (sendDeeds v m).foldl (TokenWindowState.after n i) st = st := by
  refine foldl_aside (fun d hd st => ?_) st
  obtain ⟨m,-,rfl⟩ := List.mem_map.mp hd
  rfl

theorem foldl_given (v : Host) (t : ComputeTask) (st : TokenWindowState) :
    (giveDeeds v t).foldl (TokenWindowState.after n i) st = st := by
  refine foldl_aside (fun d hd st => ?_) st
  obtain ⟨t,-,rfl⟩ := List.mem_map.mp hd
  rfl

theorem Does.tokens (hd : Does env v ds v') (i : ℕ) : v'.tokenStates[i]? =
    v.tokenStates[i]?.map fun st =>
      ds.foldl (TokenWindowState.after v.tokenStates.length i) st := by
  have hsame : v.tokenStates[i]? = v.tokenStates[i]?.map fun st => st := by simp
  cases hd with
  | ticks now ts k hrun =>
    rw [controlTick,if_pos hrun]
    simp only [foldl_asked]
    rw [updateTokens_get _ (needPull_nodup v now)]
    split_ifs
    · rfl
    · exact hsame
  | pulls | finishes | pushes =>
    simp only [foldl_sent]
    exact hsame
  | admits fin =>
    obtain ⟨n,-,heq⟩ := admittedIndices_range env v
    simp only [foldl_admitted,tryAdmitRawTokens,heq]
    rw [updateTokens_get _ List.nodup_range']
    split_ifs
    · rfl
    · exact hsame
  | hands =>
    simp only [foldl_given]
    exact hsame
  | attends j =>
    dsimp only
    rw [updateTokens_get _ (List.nodup_singleton j)]
    by_cases hj : j = i
    · subst hj
      simp [TokenWindowState.after]
    · simp [TokenWindowState.after,hj,Ne.symm hj]
  | hears m now states k r hgot hfin hlength hstates =>
    have hquiet (st : TokenWindowState) :
        (handleDeeds v m).foldl (TokenWindowState.after v.tokenStates.length i) st = st := by
      unfold handleDeeds
      split_ifs
      · exact foldl_given v _ st
      · rfl
    dsimp only
    rw [hstates,tokenIndexOf_indexIn]
    simp only [List.foldl_cons,hquiet,TokenWindowState.after]
    split_ifs
    · rfl
    · exact hsame
  | ends ds k r hds =>
    rcases hds with rfl | ⟨m,now,rfl,hfin⟩
    · exact hsame
    · have hwrite (st : TokenWindowState) : replyWrite m now st = st := by
        rw [replyWrite_eq_self,AlreadyWritten,hfin]
        trivial
      simp only [List.foldl_cons,List.foldl_nil,TokenWindowState.after,hwrite,ite_self]
      exact hsame
  | _ => exact hsame

/-- Every token of a host is in the state that what was done about it leads to. -/
theorem run_tokens (hr : Run (peerMachine g env) v hist) (hi : i < env.numTokens) :
    v.tokenStates[i]? = some (tokenView env.numTokens i hist) := by
  induction hr with
  | start hinit =>
    obtain rfl := hinit
    simp [Host.initial,tokenView,hi]
  | @next v v' hist ds a hr _ hs ih =>
    have hlength := (run_orderliness hr).proper.length
    rw [(peerStep_does hs).tokens i,ih,hlength,tokenView,tokenView,List.foldl_append]
    rfl

def Msg.isFor (n i : ℕ) (k : MsgType) (m : Msg) : Bool :=
  m.ofKind k && decide (indexIn n m.header.globalIdx = some i)

def Deed.handles (n i : ℕ) (k : MsgType) : Deed → Bool
  | .handled m _ => m.isFor n i k
  | _ => false

def Deed.attends (i : ℕ) : Deed → Bool
  | .attended j => j = i
  | _ => false

inductive Query
  | asked
  | refused (time : ℕ)
  deriving DecidableEq

def Query.isAsked : Query → Bool
  | .asked => true
  | .refused _ => false

def queryOf (n i : ℕ) : Deed → Option Query
  | .asked j _ => if j = i then some .asked else none
  | .handled m now => if m.isFor n i .notReady then some (.refused now) else none
  | _ => none

/-- The pulls chosen for token `i`, and the NOT_READYs handled for it. -/
def queries (n i : ℕ) (hist : List Deed) : List Query := hist.filterMap (queryOf n i)

theorem foldl_flag {p : TokenWindowState → Bool} {sets : Deed → Bool}
    (hstep : ∀ st d, p (TokenWindowState.after n i st d) = (p st || sets d))
    (st : TokenWindowState) (hist : List Deed) :
    p (hist.foldl (TokenWindowState.after n i) st) = (p st || hist.any sets) := by
  induction hist generalizing st with
  | nil => simp
  | cons d hist ih => rw [List.foldl_cons,ih,hstep,List.any_cons,Bool.or_assoc]

theorem view_flag {p : TokenWindowState → Bool} {sets : Deed → Bool} (h0 : p .initial = false)
    (hstep : ∀ st d, p (TokenWindowState.after n i st d) = (p st || sets d)) (hist : List Deed) :
    p (tokenView n i hist) = hist.any sets := by
  rw [tokenView,foldl_flag hstep,h0,Bool.false_or]

theorem replyWrite_attentionDone (m : Msg) (now : ℕ) (st : TokenWindowState) :
    (replyWrite m now st).attentionDone = st.attentionDone := by
  unfold replyWrite
  split <;> rfl

theorem replyWrite_acked (m : Msg) (now : ℕ) (st : TokenWindowState) :
    (replyWrite m now st).dispatchAcked = (st.dispatchAcked || m.ofKind .ack) := by
  unfold replyWrite Msg.ofKind
  split <;> simp_all

theorem replyWrite_done (m : Msg) (now : ℕ) (st : TokenWindowState) :
    (replyWrite m now st).combineDone = (st.combineDone || m.ofKind .combineResult) := by
  unfold replyWrite Msg.ofKind
  split <;> simp_all

theorem view_attentionDone (n i : ℕ) (hist : List Deed) :
    (tokenView n i hist).attentionDone = hist.any (Deed.attends i) := by
  refine view_flag (p := fun st => st.attentionDone) rfl (fun st d => ?_) hist
  cases d with
  | attended j => by_cases hj : j = i <;> simp [TokenWindowState.after,Deed.attends,hj]
  | handled m now =>
    simp only [TokenWindowState.after,Deed.attends,Bool.or_false]
    split_ifs
    · exact replyWrite_attentionDone m now st
    · rfl
  | admitted j | asked j now =>
    simp only [TokenWindowState.after,Deed.attends,Bool.or_false]
    split_ifs <;> rfl
  | _ => simp [TokenWindowState.after,Deed.attends]

theorem view_reply {p : TokenWindowState → Bool} {k : MsgType} (h0 : p .initial = false)
    (hreply : ∀ m now st, p (replyWrite m now st) = (p st || m.ofKind k))
    (hother : ∀ st, p { st with admitted := true, attentionQueued := true } = p st ∧
      p { st with attentionDone := true, dispatchEnqueued := true } = p st ∧
      p { st with pullInflight := true } = p st) (hist : List Deed) :
    p (tokenView n i hist) = hist.any (Deed.handles n i k) := by
  refine view_flag h0 (fun st d => ?_) hist
  cases d with
  | handled m now =>
    simp only [TokenWindowState.after,Deed.handles,Msg.isFor]
    split_ifs with hi
    · simp [hreply,hi]
    · simp [hi]
  | admitted j =>
    by_cases hj : j = i <;> simp [TokenWindowState.after,Deed.handles,hj,(hother st).1]
  | attended j =>
    by_cases hj : j = i <;> simp [TokenWindowState.after,Deed.handles,hj,(hother st).2.1]
  | asked j now =>
    by_cases hj : j = i <;> simp [TokenWindowState.after,Deed.handles,hj,(hother st).2.2]
  | _ => simp [TokenWindowState.after,Deed.handles]

theorem view_acked (n i : ℕ) (hist : List Deed) :
    (tokenView n i hist).dispatchAcked = hist.any (Deed.handles n i .ack) :=
  view_reply (p := fun st => st.dispatchAcked) rfl replyWrite_acked (fun _ => ⟨rfl,rfl,rfl⟩) hist

theorem view_done (n i : ℕ) (hist : List Deed) :
    (tokenView n i hist).combineDone = hist.any (Deed.handles n i .combineResult) :=
  view_reply (p := fun st => st.combineDone) rfl replyWrite_done (fun _ => ⟨rfl,rfl,rfl⟩) hist

/-- What a token remembers of the last pull. -/
structure Remembers (st : TokenWindowState) (l : List Query) : Prop where
  asked : l.getLast? = some .asked → st.combineDone = false → st.pullInflight = true
  refused : ∀ t, l.getLast? = some (.refused t) → st.nextPullTime = t + 10000000

theorem replyWrite_pull {st : TokenWindowState} (hk : m.ofKind .notReady = false) :
    (replyWrite m now st).nextPullTime = st.nextPullTime ∧
      ((replyWrite m now st).combineDone = false →
        st.combineDone = false ∧ (replyWrite m now st).pullInflight = st.pullInflight) := by
  unfold replyWrite
  split
  · exact ⟨rfl,fun h => ⟨h,rfl⟩⟩
  · rename_i hready
    simp [Msg.ofKind,hready] at hk
  · exact ⟨rfl,fun h => nomatch h⟩
  · exact ⟨rfl,fun h => ⟨h,rfl⟩⟩

theorem Remembers.aside {st st' : TokenWindowState} {l : List Query} (hm : Remembers st l)
    (hnext : st'.nextPullTime = st.nextPullTime)
    (hdone : st'.combineDone = false → st.combineDone = false ∧ st'.pullInflight = st.pullInflight) :
    Remembers st' l where
  asked hlast hnot := by
    obtain ⟨hnot,hsame⟩ := hdone hnot
    rw [hsame]
    exact hm.asked hlast hnot
  refused t hlast := by
    rw [hnext]
    exact hm.refused t hlast

theorem Remembers.after {st : TokenWindowState} {l : List Query} (hm : Remembers st l) (d : Deed) :
    Remembers (st.after n i d) (l ++ (queryOf n i d).toList) := by
  cases d with
  | asked j now =>
    by_cases hj : j = i
    · simp only [TokenWindowState.after,queryOf,if_pos hj,Option.toList_some]
      exact ⟨fun _ _ => rfl,fun t hlast => by simp at hlast⟩
    · simpa [TokenWindowState.after,queryOf,hj] using hm
  | handled m now =>
    cases hfor : m.isFor n i .notReady with
    | true =>
      obtain ⟨hk,hindex⟩ : m.header.kind = some .notReady ∧
          indexIn n m.header.globalIdx = some i := by
        simpa [Msg.isFor,Msg.ofKind] using hfor
      simp only [TokenWindowState.after,queryOf,if_pos hindex,hfor,if_true,Option.toList_some,
        replyWrite,hk]
      refine ⟨fun hlast => by simp at hlast,fun t hlast => ?_⟩
      obtain rfl : now = t := by simpa using hlast
      rfl
    | false =>
      simp only [queryOf,hfor,Bool.false_eq_true,if_false,Option.toList_none,List.append_nil,
        TokenWindowState.after]
      split_ifs with hindex
      · have hk : m.ofKind .notReady = false := by simpa [Msg.isFor,hindex] using hfor
        exact hm.aside (replyWrite_pull hk).1 (replyWrite_pull hk).2
      · exact hm
  | admitted j | attended j =>
    simp only [TokenWindowState.after,queryOf,Option.toList_none,List.append_nil]
    split_ifs
    · exact hm.aside rfl fun hnot => ⟨hnot,rfl⟩
    · exact hm
  | _ => simpa [TokenWindowState.after,queryOf] using hm

theorem view_remembers (n i : ℕ) (hist : List Deed) :
    Remembers (tokenView n i hist) (queries n i hist) := by
  induction hist using List.reverseRecOn with
  | nil => constructor <;> simp [queries]
  | append_singleton hist d ih =>
    have hafter := ih.after (n:=n) (i:=i) d
    have hone : [d].filterMap (queryOf n i) = (queryOf n i d).toList := by
      cases hq : queryOf n i d <;> simp [hq]
    rwa [tokenView,List.foldl_append,queries,List.filterMap_append,hone]

/-- When a host may ask for the result of token `i`: its attention is done, its DISPATCH_TOKEN
was acknowledged, no result has arrived, and the last pull, if any, was refused ten milliseconds
ago. -/
structure MayAsk (n i now : ℕ) (pre : List Deed) : Prop where
  attended : .attended i ∈ pre
  acked : ∃ m t, .handled m t ∈ pre ∧ m.isFor n i .ack = true
  unanswered : ∀ m t, .handled m t ∈ pre → m.isFor n i .combineResult = false
  rested : ∀ q, (queries n i pre).getLast? = some q → ∃ t, q = .refused t ∧ t + 10000000 ≤ now

theorem any_handles {k : MsgType} : hist.any (Deed.handles n i k) = true ↔
    ∃ m t, .handled m t ∈ hist ∧ m.isFor n i k = true := by
  rw [List.any_eq_true]
  constructor
  · rintro ⟨d,hd,hk⟩
    cases d with
    | handled m t => exact ⟨m,t,hd,hk⟩
    | _ => cases hk
  · rintro ⟨m,t,hm,hk⟩
    exact ⟨_,hm,hk⟩

theorem mayAsk_of_due (hdue : (tokenView n i hist).pullDue now = true) : MayAsk n i now hist := by
  simp only [TokenWindowState.pullDue,Bool.and_eq_true,Bool.not_eq_true',decide_eq_true_eq] at hdue
  obtain ⟨⟨⟨⟨⟨-,hattention⟩,hacked⟩,hdone⟩,hpull⟩,htime⟩ := hdue
  have hremembers := view_remembers n i hist
  refine ⟨?_,?_,?_,?_⟩
  · rw [view_attentionDone,List.any_eq_true] at hattention
    obtain ⟨d,hd,hj⟩ := hattention
    cases d with
    | attended j =>
      obtain rfl : j = i := by simpa [Deed.attends] using hj
      exact hd
    | _ => cases hj
  · rw [view_acked] at hacked
    exact any_handles.mp hacked
  · intro m t hm
    by_contra hk
    rw [view_done] at hdone
    have hany := any_handles.mpr ⟨m,t,hm,by simpa using hk⟩
    rw [hdone] at hany
    cases hany
  · intro q hlast
    cases q with
    | asked =>
      rw [hremembers.asked hlast hdone] at hpull
      cases hpull
    | refused t =>
      refine ⟨t,rfl,?_⟩
      rw [← hremembers.refused t hlast]
      exact htime

theorem Does.asked (hd : Does env v ds v') (hi : .asked i now ∈ ds) :
    ds = (needPull v now).map (Deed.asked · now) := by
  have hsent (m : Msg) : Deed.asked i now ∉ sendDeeds v m := by simp [sendDeeds]
  have hgiven (t : ComputeTask) : Deed.asked i now ∉ giveDeeds v t := by simp [giveDeeds]
  cases hd with
  | ticks now' =>
    obtain ⟨j,-,heq⟩ := List.mem_map.mp hi
    cases heq
    rfl
  | pulls | finishes | pushes => exact absurd hi (hsent _)
  | admits =>
    obtain ⟨j,-,heq⟩ := List.mem_map.mp hi
    cases heq
  | hands => exact absurd hi (hgiven _)
  | attends => simp at hi
  | writes => simp at hi
  | hears m =>
    rcases List.mem_cons.mp hi with heq | hi
    · cases heq
    · unfold handleDeeds at hi
      split_ifs at hi
      · exact absurd hi (hgiven _)
      · cases hi
  | ends ds k r hds =>
    rcases hds with rfl | ⟨m,t,rfl,-⟩ <;> simp at hi
  | _ => cases hi

theorem run_mayAsk (hr : Run (peerMachine g env) v hist) {pre post : List Deed}
    (heq : hist = pre ++ .asked i now::post) : MayAsk env.numTokens i now pre := by
  obtain ⟨w,k,a,w',ds₁,ds₂,hrun,-,hs,rfl⟩ := hr.fired pre _ post heq
  have hall : ds₁ ++ .asked i now::ds₂ = (needPull w now).map (Deed.asked · now) :=
    (peerStep_does hs).asked (i:=i) (by simp)
  obtain ⟨l₁,l,hl,hl₁,hrest⟩ := List.append_eq_map_iff.mp hall
  obtain ⟨j,l₂,rfl,hj,-⟩ := List.map_eq_cons_iff.mp hrest
  cases hj
  have hmem : i ∈ needPull w now := by simp [hl]
  have hfresh : i ∉ l₁ := by
    have hnodup := needPull_nodup w now
    rw [hl] at hnodup
    exact fun hi => (List.nodup_append.mp hnodup).2.2 i hi i List.mem_cons_self rfl
  have hlt : i < env.numTokens := by
    rw [← (run_orderliness hrun).proper.length]
    exact needPull_lt hmem
  apply mayAsk_of_due
  rw [tokenView,List.foldl_append,← tokenView,← hl₁,foldl_asked,if_neg hfresh]
  obtain ⟨-,hdue⟩ := List.mem_filter.mp hmem
  rw [run_tokens hrun hlt] at hdue
  simpa using hdue

theorem countP_asked {l : List Query}
    (hspaced : ∀ pre post, l = pre ++ .asked::post → pre.getLast? ≠ some .asked) :
    l.countP Query.isAsked ≤
      l.countP (fun q => !q.isAsked) + (if l.getLast? = some .asked then 1 else 0) := by
  induction l using List.reverseRecOn with
  | nil => simp
  | append_singleton l q ih =>
    have hprev := ih fun pre post heq => hspaced pre (post ++ [q]) (by simp [heq])
    cases q with
    | asked =>
      rw [if_neg (hspaced l [] rfl)] at hprev
      simpa [Query.isAsked] using hprev
    | refused t =>
      have : l.countP Query.isAsked ≤ l.countP (fun q => !q.isAsked) + 1 := by
        split_ifs at hprev <;> omega
      simpa [Query.isAsked] using this

theorem queryOf_asked {d : Deed} (hd : queryOf n i d = some .asked) : ∃ now, d = .asked i now := by
  unfold queryOf at hd
  split at hd
  · rename_i j now
    split_ifs at hd with hj
    exact ⟨now,by rw [hj]⟩
  · split_ifs at hd
    cases hd
  · cases hd

theorem queries_spaced (hr : Run (peerMachine g env) v hist) {pre post : List Query}
    (heq : queries env.numTokens i hist = pre ++ .asked::post) : pre.getLast? ≠ some .asked := by
  obtain ⟨l,rest,rfl,hpre,hrest⟩ := List.filterMap_eq_append_iff.mp heq
  obtain ⟨l',d,tail,rfl,hnone,hd,-⟩ := List.filterMap_eq_cons_iff.mp hrest
  obtain ⟨now,rfl⟩ := queryOf_asked hd
  have hmay : MayAsk env.numTokens i now (l ++ l') := run_mayAsk hr (by rw [List.append_assoc])
  have hqueries : queries env.numTokens i (l ++ l') = pre := by
    rw [queries,List.filterMap_append,hpre,List.filterMap_eq_nil_iff.mpr hnone,List.append_nil]
  intro hlast
  obtain ⟨t,heq,-⟩ := hmay.rested .asked (by rw [hqueries]; exact hlast)
  cases heq

/-- Whatever its peer answers, a host asks for the result of a token only when it may, and at
most once more than it is refused. -/
theorem host_asks (hr : Run (peerMachine g env) v hist) (i : ℕ) :
    (∀ pre now post, hist = pre ++ .asked i now::post → MayAsk env.numTokens i now pre) ∧
      (queries env.numTokens i hist).countP Query.isAsked ≤
        (queries env.numTokens i hist).countP (fun q => !q.isAsked) + 1 := by
  refine ⟨fun pre now post heq => run_mayAsk hr heq,?_⟩
  have hcount := countP_asked fun pre post heq => queries_spaced (i:=i) hr heq
  split_ifs at hcount <;> omega

theorem host_asks_sample : ∃ v hist, Run (peerMachine (0 : Fin 1) lonelyHost) v hist ∧
    queries 1 0 hist = [.asked,.refused 5,.asked] ∧
    (∀ pre now post, hist = pre ++ .asked 0 now::post → MayAsk 1 0 now pre) ∧
      (queries 1 0 hist).countP Query.isAsked ≤
        (queries 1 0 hist).countP (fun q => !q.isAsked) + 1 := by
  obtain ⟨v,hist,hrun,hp⟩ := exists_run_of_replay (peerMachine (0 : Fin 1) lonelyHost)
    (fun _ _ => true) (Host.initial _) refusedRun
    (fun _ hist => decide (queries 1 0 hist = [.asked,.refused 5,.asked])) rfl (by decide +kernel)
  exact ⟨v,hist,hrun.run,of_decide_eq_true hp,host_asks hrun.run 0⟩

def Deed.result (n i : ℕ) : Deed → Option Msg
  | .handled m _ => if m.isFor n i .combineResult then some m else none
  | _ => none

def resultsFor (n i : ℕ) (hist : List Deed) : List Msg := hist.filterMap (Deed.result n i)

theorem replyWrite_payload (m : Msg) (now : ℕ) (st : TokenWindowState) :
    (replyWrite m now st).combinePayload =
      if m.ofKind .combineResult then m.payload else st.combinePayload := by
  unfold replyWrite Msg.ofKind
  split <;> simp_all

theorem after_payload (st : TokenWindowState) (d : Deed) :
    (st.after n i d).combinePayload =
      ((Deed.result n i d).map Msg.payload).getD st.combinePayload := by
  cases d with
  | handled m now =>
    simp only [TokenWindowState.after,Deed.result,Msg.isFor]
    split_ifs with hi <;> simp_all [replyWrite_payload]
  | admitted j | attended j | asked j _ =>
    simp only [TokenWindowState.after,Deed.result]
    split_ifs <;> rfl
  | _ => rfl

theorem view_payload (n i : ℕ) (hist : List Deed) : (tokenView n i hist).combinePayload =
    ((resultsFor n i hist).getLast?.map Msg.payload).getD Bytes.empty := by
  induction hist using List.reverseRecOn with
  | nil => rfl
  | append_singleton hist d ih =>
    rw [tokenView,List.foldl_append,← tokenView,List.foldl_cons,List.foldl_nil,after_payload,ih,
      resultsFor,resultsFor,List.filterMap_append]
    cases hd : Deed.result n i d <;> simp [hd]

theorem resultsFor_isEmpty (n i : ℕ) (hist : List Deed) :
    hist.any (Deed.handles n i .combineResult) = !(resultsFor n i hist).isEmpty := by
  induction hist with
  | nil => rfl
  | cons d hist ih =>
    rw [List.any_cons,ih,resultsFor,resultsFor]
    cases d with
    | handled m now =>
      by_cases hm : m.isFor n i .combineResult = true <;> simp [Deed.handles,Deed.result,hm]
    | _ =>
      rw [List.filterMap_cons_none rfl]
      rfl

/-- Whatever its peer does, a host keeps each token in the state that the deeds about that token
lead to; the token is done as soon as a result was handled for it, and keeps the last one. -/
theorem host_tokens (hr : Run (peerMachine g env) v hist) (hi : i < env.numTokens) :
    v.tokenStates[i]? = some (tokenView env.numTokens i hist) ∧
      (tokenView env.numTokens i hist).combineDone = !(resultsFor env.numTokens i hist).isEmpty ∧
      (tokenView env.numTokens i hist).combinePayload =
        ((resultsFor env.numTokens i hist).getLast?.map Msg.payload).getD Bytes.empty :=
  ⟨run_tokens hr hi,by rw [view_done,resultsFor_isEmpty],view_payload _ _ _⟩

/-- The result comes before the token was dispatched. -/
def earlyRun : List PeerAction :=
  peerPush 2 ++ peerReads .combineResult 0 ++ peerTick 0 ++ peerSend ++ [.wrote]

theorem host_tokens_sample : ∃ v hist, Run (peerMachine (0 : Fin 1) lonelyHost) v hist ∧
    (resultsFor 1 0 hist).length = 1 ∧ v.tokenStates[0]? = some (tokenView 1 0 hist) ∧
      (tokenView 1 0 hist).combineDone = !(resultsFor 1 0 hist).isEmpty ∧
      (tokenView 1 0 hist).combinePayload =
        ((resultsFor 1 0 hist).getLast?.map Msg.payload).getD Bytes.empty := by
  obtain ⟨v,hist,hrun,hp⟩ := exists_run_of_replay (peerMachine (0 : Fin 1) lonelyHost)
    (fun _ _ => true) (Host.initial _) earlyRun
    (fun _ hist => decide ((resultsFor 1 0 hist).length = 1)) rfl (by decide +kernel)
  have hnum : lonelyHost.numTokens = 1 := rfl
  have htokens := host_tokens hrun.run (i:=0) (by rw [hnum]; exact Nat.zero_lt_one)
  rw [hnum] at htokens
  exact ⟨v,hist,hrun.run,of_decide_eq_true hp,htokens⟩

end INA2A

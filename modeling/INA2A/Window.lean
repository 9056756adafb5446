import INA2A.Forwarding

/-! The sliding window of a host: what its indices and flags say in every reachable state,
and which values of `window_size` keep it filled. -/
namespace INA2A

open ByteBuffers BitWords EventMachine

variable {N : ℕ} {c : Config N} {s s' : System N} {p : Progress (Fin N) U64} {h : Fin N}
variable {hist ev : List (Event N)} {env : HostEnv} {v v' : Host} {ts : U64}

/-- The window has moved, or has just been set up, and the admission is still to come. -/
def Control.unadmitted : Control → Bool
  | .pulling _ true _ => true
  | _ => false

/-- What a step of a host does to its window. -/
inductive WindowMove (env : HostEnv) (v v' : Host) : Prop
  | keep : v'.windowBase = v.windowBase → v'.nextToAdmit = v.nextToAdmit →
      v'.control.unadmitted = v.control.unadmitted → WindowMove env v v'
  | slide : v'.control.unadmitted = true → v'.nextToAdmit = v.nextToAdmit → WindowMove env v v'
  | admits (fin) : v' = tryAdmitRawTokens env v fin → v.control.unadmitted = true →
      WindowMove env v v'

theorem Control.unadmitted_of_idle {control : Control} (hidle : control.idle = true) :
    control.unadmitted = false := by
  unfold Control.idle at hidle
  split at hidle
  · rfl
  · cases hidle

theorem controlTick_windowMove (hidle : v.control.idle = true) (now : ℕ) :
    WindowMove env v (controlTick env v now ts) := by
  have hcontrol := Control.unadmitted_of_idle hidle
  unfold controlTick
  split_ifs
  · dsimp only
    generalize updateTokens _ _ _ = states
    obtain ⟨n,-,hbase,-⟩ := slideWindow_eq states (env.numTokens - v.windowBase) v.windowBase
    rw [hbase]
    cases n with
    | zero => exact .keep rfl rfl (by rw [hcontrol]; simp [Control.unadmitted])
    | succ n => exact .slide (by simp [Control.unadmitted]) rfl
  · exact .keep rfl rfl rfl

theorem tickStep_windowMove {now : ℕ} (hs : tickStep env v now ts = some v') :
    WindowMove env v v' := by
  unfold tickStep at hs
  split_ifs at hs with hidle
  have htick : WindowMove env v (controlTick env v now ts) := controlTick_windowMove hidle now
  split at hs <;> obtain rfl := Option.some.inj hs
  · generalize controlTick env v now ts = w at htick
    cases htick with
    | keep hbase hnext hcontrol => exact .keep hbase hnext hcontrol
    | slide hcontrol hnext => exact .slide hcontrol hnext
    | admits fin _ hun => simp [Control.unadmitted_of_idle hidle] at hun
  · exact .keep rfl rfl rfl
  · exact htick

theorem controlPush_windowMove (hs : controlPush h env v ts = some (v',ev)) :
    WindowMove env v v' := by
  unfold controlPush at hs
  split at hs
  · rename_i i pulls moved fin hcontrol
    have hsame : (Control.pulling pulls moved fin).unadmitted = v.control.unadmitted := by
      rw [hcontrol]
      cases moved <;> rfl
    dsimp only at hs
    split at hs <;> obtain ⟨rfl,-⟩ := Prod.mk.inj (Option.some.inj hs) <;>
      exact .keep rfl rfl hsame
  · rename_i fin hcontrol
    obtain ⟨rfl,-⟩ := Prod.mk.inj (Option.some.inj hs)
    exact .admits fin rfl (by rw [hcontrol]; rfl)
  · rename_i fin hcontrol
    obtain ⟨rfl,-⟩ := Prod.mk.inj (Option.some.inj hs)
    exact .keep rfl rfl (by rw [hcontrol]; rfl)
  · rename_i i tasks fin hcontrol
    obtain ⟨rfl,-⟩ := Prod.mk.inj (Option.some.inj hs)
    exact .keep rfl rfl (by rw [hcontrol]; rfl)
  · rename_i m hcontrol
    obtain ⟨rfl,-⟩ := Prod.mk.inj (Option.some.inj hs)
    exact .keep rfl rfl (by rw [hcontrol]; rfl)
  · cases hs

/-- The token that `push` puts into the open compute queue. -/
def HostAction.pushing (v : Host) : HostAction → Option ℕ
  | .push _ =>
    match v.control with
    | .admitted (i::_) _ => if v.computeQueue.closed then none else some i
    | _ => none
  | _ => none

/-- What a step of the system puts into the compute queues for local attention. -/
def admissions (s : System N) : Action N → List (Fin N × ℕ)
  | .host h a => (a.pushing (s.host h)).toList.map (h,·)
  | _ => []

def pushesOf (h : Fin N) (l : List (Fin N × ℕ)) : List ℕ :=
  l.filterMap fun x => if x.1 = h then some x.2 else none

theorem pushesOf_append (h : Fin N) (l l' : List (Fin N × ℕ)) :
    pushesOf h (l ++ l') = pushesOf h l ++ pushesOf h l' := by
  simp [pushesOf]

/-- An admission takes the next tokens on; the pushes hand them to the compute queue. -/
def TakesOn (v v' : Host) (pushed : List ℕ) : Prop :=
  ∃ n, v'.nextToAdmit = v.nextToAdmit + n ∧
    pushed ++ v'.control.tasks = v.control.tasks ++ List.range' v.nextToAdmit n

theorem TakesOn.still (hnext : v'.nextToAdmit = v.nextToAdmit)
    (htasks : v'.control.tasks = v.control.tasks) : TakesOn v v' [] :=
  ⟨0,hnext,by simp [htasks]⟩

theorem tickStep_takesOn {now : ℕ} (hs : tickStep env v now ts = some v') : TakesOn v v' [] := by
  unfold tickStep at hs
  split_ifs at hs with hidle
  have hcontrol : v.control.tasks = [] := by
    unfold Control.idle at hidle
    split at hidle
    · rename_i heq
      rw [heq]
      rfl
    · cases hidle
  have htick : TakesOn v (controlTick env v now ts) [] := by
    unfold controlTick
    split_ifs
    · exact .still rfl hcontrol.symm
    · exact .still rfl rfl
  split at hs <;> obtain rfl := Option.some.inj hs
  · exact htick
  · exact .still rfl rfl
  · exact htick

theorem controlPush_takesOn (hf : Follows c s p) (hp : Orderly c.plan p)
    (hs : controlPush h (c.env h) (s.host h) ts = some (v',ev)) :
    TakesOn (s.host h) v' ((HostAction.push ts).pushing (s.host h)).toList := by
  unfold controlPush at hs
  simp only [HostAction.pushing]
  split at hs
  · rename_i i pulls moved fin hcontrol
    rw [hcontrol]
    dsimp only at hs
    split at hs <;> obtain ⟨rfl,-⟩ := Prod.mk.inj (Option.some.inj hs) <;>
      exact .still rfl (by rw [hcontrol]; rfl)
  · rename_i fin hcontrol
    obtain ⟨rfl,-⟩ := Prod.mk.inj (Option.some.inj hs)
    obtain ⟨n,-,heq,-⟩ := admittedIndices_eq (c.env h) (s.host h).windowBase
      ((c.env h).numTokens - (s.host h).nextToAdmit) (s.host h).nextToAdmit
    refine ⟨n,?_,?_⟩
    · simp only [tryAdmitRawTokens,heq,List.length_range']
    · simp only [tryAdmitRawTokens,heq,hcontrol,Control.tasks]
      rfl
  · rename_i fin hcontrol
    rw [hcontrol]
    obtain ⟨rfl,-⟩ := Prod.mk.inj (Option.some.inj hs)
    exact .still rfl (by rw [hcontrol]; rfl)
  · rename_i i tasks fin hcontrol
    have hx : Item.task i ∈ items s h :=
      mem_items_of_host (by simp [Host.items,Control.items,hcontrol])
    have hrun := hf.hostRunning (hf.notMarked hp hx (by simp)) h
    obtain ⟨rfl,-⟩ := Prod.mk.inj (Option.some.inj hs)
    refine ⟨0,rfl,?_⟩
    simp [hcontrol,hrun.computeOpen,Control.tasks]
  · rename_i m hcontrol
    rw [hcontrol]
    obtain ⟨rfl,-⟩ := Prod.mk.inj (Option.some.inj hs)
    exact .still rfl (by rw [hcontrol]; rfl)
  · cases hs

theorem computeStep_window (hs : computeStep h env v ts = some (v',ev)) :
    v'.windowBase = v.windowBase ∧ v'.nextToAdmit = v.nextToAdmit := by
  unfold computeStep at hs
  split at hs
  · split at hs
    · split at hs <;> cases hs <;> exact ⟨rfl,rfl⟩
    · cases hs
      exact ⟨rfl,rfl⟩
  · split at hs
    · split_ifs at hs
      cases hs
      exact ⟨rfl,rfl⟩
    · cases hs
      exact ⟨rfl,rfl⟩
  · split_ifs at hs <;> cases hs
    · unfold processComputeTask
      split
      · split <;> exact ⟨rfl,rfl⟩
      · exact ⟨rfl,rfl⟩
    · exact ⟨rfl,rfl⟩
  · cases hs
    exact ⟨rfl,rfl⟩
  · cases hs

theorem window_aside (hbase : v'.windowBase = v.windowBase) (hnext : v'.nextToAdmit = v.nextToAdmit)
    (hcontrol : v'.control = v.control) : WindowMove env v v' ∧ TakesOn v v' [] :=
  ⟨.keep hbase hnext (by rw [hcontrol]),.still hnext (by rw [hcontrol])⟩

theorem hostStep_window (hf : Follows c s p) (hp : Orderly c.plan p) {a : HostAction}
    (hs : hostStep h (c.env h) (s.host h) a = some (v',ev)) :
    WindowMove (c.env h) (s.host h) v' ∧ TakesOn (s.host h) v' (a.pushing (s.host h)).toList := by
  have hkeeps := hostStep_keeps hs
  cases hostStep_move hs with
  | tick _ hw => exact ⟨tickStep_windowMove hw,tickStep_takesOn hw⟩
  | push _ hw => exact ⟨controlPush_windowMove hw,controlPush_takesOn hf hp hw⟩
  | compute _ hw =>
    obtain ⟨hbase,hnext⟩ := computeStep_window hw
    exact window_aside hbase hnext (hkeeps.control (by simp [HostAction.part]))
  | send _ hw =>
    have hst := sendStep_stays hw
    exact window_aside hst.base hst.next hst.control
  | read _ hw =>
    have hst := (readStep_stays hw).1
    exact window_aside hst.base hst.next hst.control

theorem pushesOf_map (h g : Fin N) (l : List ℕ) :
    pushesOf g (l.map (h,·)) = if h = g then l else [] := by
  by_cases hg : h = g <;> simp [pushesOf,List.filterMap_map,hg]

theorem systemStep_window (hf : Follows c s p) (hp : Orderly c.plan p) {a : Action N}
    (hs : systemStep c s a = some (s',ev)) (g : Fin N) :
    WindowMove (c.env g) (s.host g) (s'.host g) ∧
      TakesOn (s.host g) (s'.host g) (pushesOf g (admissions s a)) := by
  by_cases ha : ∀ h b, a ≠ .host h b
  · have hst := (systemStep_stays ha hs).1 g
    have hnone : admissions s a = [] := by
      cases a with
      | host h b => exact absurd rfl (ha h b)
      | _ => rfl
    rw [hnone]
    exact window_aside hst.base hst.next hst.control
  · push Not at ha
    obtain ⟨h,b,rfl⟩ := ha
    obtain ⟨v,hr,rfl⟩ := systemStep_host hs
    obtain ⟨hmove,htakes⟩ := hostStep_window hf hp hr
    simp only [admissions,pushesOf_map]
    by_cases hg : g = h
    · subst hg
      simpa [System.setHost] using ⟨hmove,htakes⟩
    · have haside : WindowMove (c.env g) (s.host g) (s.host g) ∧ TakesOn (s.host g) (s.host g) [] :=
        window_aside rfl rfl rfl
      simpa [System.setHost,hg,Ne.symm hg] using haside

theorem admittedIndices_length (env : HostEnv) (base : ℕ) (hlow : -2 ^ 31 ≤ base + env.windowSize)
    (hhigh : base + env.windowSize < 2 ^ 31) (fuel next : ℕ) :
    (admittedIndices env base fuel next).length = min fuel (base + env.windowSize - next).toNat := by
  induction fuel generalizing next with
  | zero => simp [admittedIndices]
  | succ fuel ih =>
    rw [admittedIndices,int32_eq hlow hhigh]
    split_ifs with hlt
    · rw [List.length_cons,ih]
      omega
    · rw [List.length_nil]
      omega

/-- The windows that an `int` never overflows on and that keep at least one token admitted. -/
def Config.WindowFits (c : Config N) (h : Fin N) : Prop :=
  1 ≤ (c.args h).windowSize ∧ (((c.args h).numTokens : ℤ) ≤ (c.args h).windowSize ∨
    (c.args h).numTokens + (c.args h).windowSize ≤ 2 ^ 31)

/-- Up to the next admission, as many tokens are admitted as the window allows; a window as
wide as the workload is filled once and for all. -/
structure Filled (c : Config N) (h : Fin N) (v : Host) : Prop where
  filled : v.control.unadmitted = false →
    (v.nextToAdmit : ℤ) = min ((c.args h).numTokens : ℤ) (v.windowBase + (c.args h).windowSize)
  whole : ((c.args h).numTokens : ℤ) ≤ (c.args h).windowSize →
    v.nextToAdmit = 0 ∨ v.nextToAdmit = (c.args h).numTokens

/-- The bounds that every reachable state of a host keeps. -/
structure Bounded (c : Config N) (h : Fin N) (v : Host) : Prop where
  base_le : v.windowBase ≤ v.nextToAdmit
  next_le : v.nextToAdmit ≤ (c.args h).numTokens
  next_window : v.nextToAdmit ≤ v.windowBase + (c.args h).windowSize.toNat

theorem Follows.bounded (hf : Follows c s p) (hp : Orderly c.plan p) (h : Fin N) :
    Bounded c h (s.host h) := by
  have hm := hf.hosts h
  refine ⟨?_,?_,?_⟩
  · rw [hm.base,hm.next]
    exact hp.base_le h
  · rw [hm.next]
    exact hp.next_le h
  · rw [hm.base,hm.next]
    exact hp.next_window h

theorem Filled.guard (hfits : c.WindowFits h) (hfill : Filled c h v) (hb : Bounded c h v)
    (hlt : v.nextToAdmit < (c.args h).numTokens) :
    -2 ^ 31 ≤ v.windowBase + (c.args h).windowSize ∧
      v.windowBase + (c.args h).windowSize < 2 ^ 31 := by
  have hbase := hb.base_le
  have hsize := (c.args h).windowSize_lt
  obtain ⟨hpos,hwhole | hsum⟩ := hfits
  · rcases hfill.whole hwhole with hzero | hall <;> omega
  · omega

theorem Filled.step (hfits : c.WindowFits h) (hfill : Filled c h v) (hb : Bounded c h v)
    (hm : WindowMove (c.env h) v v') : Filled c h v' := by
  cases hm with
  | keep hbase hnext hcontrol =>
    refine ⟨?_,?_⟩
    · rw [hcontrol,hbase,hnext]
      exact hfill.filled
    · rw [hnext]
      exact hfill.whole
  | slide hcontrol hnext =>
    refine ⟨?_,?_⟩
    · simp [hcontrol]
    · rw [hnext]
      exact hfill.whole
  | admits fin hv hun =>
    have hnext_le := hb.next_le
    have hwindow := hb.next_window
    have hbase_le := hb.base_le
    have hpos := hfits.1
    have hlen : (admittedIndices (c.env h) v.windowBase ((c.args h).numTokens - v.nextToAdmit)
        v.nextToAdmit).length = min ((c.args h).numTokens - v.nextToAdmit)
        (v.windowBase + (c.args h).windowSize - v.nextToAdmit).toNat := by
      rcases hnext_le.eq_or_lt with heq | hlt
      · simp [heq,admittedIndices]
      · obtain ⟨hlow,hhigh⟩ := hfill.guard hfits hb hlt
        exact admittedIndices_length (c.env h) v.windowBase hlow hhigh _ _
    have hnum : (c.env h).numTokens = (c.args h).numTokens := env_numTokens c h
    subst hv
    simp only [tryAdmitRawTokens,hnum,hlen]
    refine ⟨?_,?_⟩
    · intro _
      dsimp only
      omega
    · intro hwhole
      dsimp only
      rcases hfill.whole hwhole with hzero | hall <;> omega

theorem run_filled (hfits : c.WindowFits h) (hr : Run (systemMachine c) s hist) :
    Filled c h (s.host h) := by
  induction hr with
  | start h0 =>
    subst h0
    exact ⟨by simp [System.initial,Host.initial,Control.unadmitted],fun _ => .inl rfl⟩
  | next hr _ hs ih =>
    obtain ⟨p,hf,hp⟩ := exists_progress hr
    exact ih.step hfits (hf.bounded hp h) (systemStep_window hf hp hs h).1

theorem run_takesOn {hist : List (Event N ⊕ Fin N × ℕ)}
    (hr : Run ((systemMachine c).watch admissions) s hist) (h : Fin N) :
    pushesOf h (seen hist) ++ (s.host h).control.tasks = List.range (s.host h).nextToAdmit := by
  induction hr with
  | start h0 =>
    subst h0
    rfl
  | next hr _ hs ih =>
    obtain ⟨hstep,hseen⟩ := watch_step hs
    obtain ⟨p,hf,hp⟩ := exists_progress hr.unwatched
    obtain ⟨n,hnext,htasks⟩ := (systemStep_window hf hp hstep h).2
    rw [seen_append,hseen,pushesOf_append,List.append_assoc,htasks,← List.append_assoc,ih,hnext,
      List.range_add,List.range'_eq_map_range]

theorem Stage.flags {H T : Type} (σ : Stage H T) :
    (σ.isDone = true → σ.dispatchAcked = true) ∧ (σ.dispatchAcked = true → σ.attentionDone = true) ∧
      (σ.attentionDone = true → σ.admitted = true) := by
  cases σ <;> simp [Stage.isDone,Stage.dispatchAcked,Stage.attentionDone,Stage.admitted]

theorem Stage.admitted_iff {H T : Type} (σ : Stage H T) : σ.admitted = true ↔ σ ≠ .raw := by
  cases σ <;> simp [Stage.admitted]

/-- What may be relied on about the window of a host, given its tokens pushed to the compute
queue so far. -/
structure SlidingWindow (c : Config N) (h : Fin N) (s : System N) (hist : List (Event N))
    (pushed : List ℕ) : Prop where
  received : (s.host h).receivedCombines = (s.host h).windowBase
  base_le : (s.host h).windowBase ≤ (s.host h).nextToAdmit
  next_le : ((s.host h).nextToAdmit : ℤ) ≤
    min ((c.args h).numTokens : ℤ) ((s.host h).windowBase + (c.args h).windowSize)
  /-- After the initial admission and at the end of every tick. -/
  filled : ∀ tasks fin, (s.host h).control = .admitted tasks fin →
    ((s.host h).nextToAdmit : ℤ) =
      min ((c.args h).numTokens : ℤ) ((s.host h).windowBase + (c.args h).windowSize)
  length : (s.host h).tokenStates.length = (c.args h).numTokens
  admitted : ∀ (i : ℕ) st, (s.host h).tokenStates[i]? = some st →
    (st.admitted = true ↔ i < (s.host h).nextToAdmit)
  released : ∀ (i : ℕ) st, (s.host h).tokenStates[i]? = some st → i < (s.host h).windowBase →
    st.combineDone = true
  flags : ∀ (i : ℕ) st, (s.host h).tokenStates[i]? = some st →
    (st.combineDone = true → st.dispatchAcked = true) ∧
    (st.dispatchAcked = true → st.dispatchEnqueued = true) ∧
    (st.dispatchEnqueued = true → st.attentionDone = true) ∧
    (st.attentionDone = true → st.admitted = true)
  pushedOnce : ∀ i, pushed.count i ≤ 1
  /-- Once the call that admitted them has returned. -/
  pushedAll : ∀ fin, (s.host h).control = .admitted [] fin →
    ∀ i < (s.host h).nextToAdmit, pushed.count i = 1
  inOrder : (dispatches h hist).Pairwise (· < ·)
  finishOnce : hist.countP (Event.finishBy h) ≤ 1
  finishLast : ∀ a s' ev, systemStep c s a = some (s',ev) → 0 < ev.countP (Event.finishBy h) →
    (s.host h).windowBase = (c.args h).numTokens

theorem Follows.base_of_finish (hf : Follows c s p) (hp : Orderly c.plan p)
    (hflag : (s.host h).finishEnqueued = true) : (s.host h).windowBase = (c.args h).numTokens := by
  have hm := hf.hosts h
  rw [hm.base,hp.closing h (hm.finishEnqueued.mp hflag)]
  rfl

theorem sliding_window (c : Config N) (h : Fin N) (hpos : 1 ≤ (c.args h).windowSize)
    (hsum : (c.args h).numTokens + (c.args h).windowSize < 2 ^ 31) {s : System N}
    {hist : List (Event N ⊕ Fin N × ℕ)} (hr : Run ((systemMachine c).watch admissions) s hist) :
    SlidingWindow c h s (shown hist) (pushesOf h (seen hist)) := by
  have hrun : Run (systemMachine c) s (shown hist) := hr.unwatched
  obtain ⟨p,hf,hp⟩ := exists_progress hrun
  have hm := hf.hosts h
  have hb := hf.bounded hp h
  have hfilled := (run_filled ⟨hpos,.inr (by omega)⟩ hrun).filled
  have hpushed := run_takesOn hr h
  obtain ⟨htokens,hfinish⟩ := run_forwards hrun h
  have hnodup : (pushesOf h (seen hist)).Nodup := by
    have hall := List.nodup_range (n:=(s.host h).nextToAdmit)
    rw [← hpushed] at hall
    exact (List.nodup_append.mp hall).1
  refine ⟨by rw [hm.received,hm.base],hb.base_le,?_,?_,hm.length,?_,?_,?_,?_,?_,?_,?_,?_⟩
  · have hnext := hb.next_le
    have hwindow := hb.next_window
    omega
  · intro tasks fin hcontrol
    exact hfilled (by rw [hcontrol]; rfl)
  · intro i st hst
    rw [(hm.tokens i st hst).admitted,Stage.admitted_iff,hm.next,Ne,hp.raw h i,not_le]
  · intro i st hst hi
    rw [(hm.tokens i st hst).combineDone,hp.base_done h i (by rwa [← hm.base])]
    rfl
  · intro i st hst
    have ht := hm.tokens i st hst
    obtain ⟨hacked,hattended,hadmitted⟩ := (p.stage h i).flags
    rw [ht.combineDone,ht.dispatchAcked,ht.dispatchEnqueued,ht.attentionDone,ht.admitted]
    exact ⟨hacked,hattended,id,hadmitted⟩
  · exact List.nodup_iff_count_le_one.mp hnodup
  · intro fin hcontrol i hi
    rw [hcontrol] at hpushed
    have hmem : i ∈ pushesOf h (seen hist) := by
      rw [← List.append_nil (pushesOf h (seen hist))]
      exact hpushed ▸ List.mem_range.mpr hi
    exact List.count_eq_one_of_mem hnodup hmem
  · have hsorted := List.pairwise_lt_range (n:=(s.host h).nextToAdmit)
    rw [← htokens] at hsorted
    exact (List.pairwise_append.mp hsorted).1
  · have := (s.host h).finishEnqueued.toNat_le
    omega
  · intro a s' ev hs hfin
    obtain ⟨ev',hfwd,-,hcount⟩ := systemStep_forwards hf hp hs h
    have hdecided := hfwd.decided
    apply hf.base_of_finish hp
    cases hflag : (s.host h).finishEnqueued with
    | true => rfl
    | false =>
      rw [hflag,Bool.toNat_false] at hfinish
      omega

theorem sliding_window_sample : ∃ (s : System 1) (hist : List (Event 1 ⊕ Fin 1 × ℕ)),
    Run ((systemMachine (soloConfig .fourLoops 1)).watch admissions) s hist ∧
    seen hist = [(0,0)] ∧
    SlidingWindow (soloConfig .fourLoops 1) 0 s (shown hist) (pushesOf 0 (seen hist)) := by
  obtain ⟨s,hist,hrun,hp⟩ := exists_run_of_replay
    ((systemMachine (soloConfig .fourLoops 1)).watch admissions)
    (fun _ _ => true) (System.initial _) ([.accept 0,.start 0] ++ soloPush 2)
    (fun _ hist => seen hist == [(0,0)]) rfl (by decide +kernel)
  exact ⟨s,hist,hrun.run,by simpa using hp,sliding_window _ 0 (by decide) (by decide) hrun.run⟩

/-- What the window arithmetic of a host has to provide. -/
structure WindowArithmetic (c : Config N) (h : Fin N) (s : System N) : Prop where
  /-- Whenever the guard of the admission adds, the sum is an `int`. -/
  guard : ∀ fin, (s.host h).control = .pulling [] true fin →
    (s.host h).nextToAdmit < (c.args h).numTokens →
    -2 ^ 31 ≤ (s.host h).windowBase + (c.args h).windowSize ∧
      (s.host h).windowBase + (c.args h).windowSize < 2 ^ 31
  /-- After an admission and at the end of every tick, unfinished work is under way. -/
  unstalled : ∀ tasks fin, (s.host h).control = .admitted tasks fin →
    (s.host h).windowBase < (c.args h).numTokens → (s.host h).windowBase < (s.host h).nextToAdmit

theorem window_arithmetic (c : Config N) (h : Fin N)
    (hcond : (c.args h).numTokens = 0 ∨ c.WindowFits h) {s : System N} {hist : List (Event N)}
    (hr : Run (systemMachine c) s hist) : WindowArithmetic c h s := by
  obtain ⟨p,hf,hp⟩ := exists_progress hr
  have hb := hf.bounded hp h
  rcases hcond with hzero | hfits
  · refine ⟨fun _ _ hlt => ?_,fun _ _ _ hlt => ?_⟩ <;> omega
  · have hfill := run_filled hfits hr
    refine ⟨fun _ _ hlt => hfill.guard hfits hb hlt,?_⟩
    intro tasks fin hcontrol hlt
    have hnext := hfill.filled (by rw [hcontrol]; rfl)
    have hpos := hfits.1
    omega

theorem window_arithmetic_sample : ∃ (s : System 1) (hist : List (Event 1)),
    Run (systemMachine (soloConfig .fourLoops 1)) s hist ∧
    (s.host 0).nextToAdmit = 1 ∧ WindowArithmetic (soloConfig .fourLoops 1) 0 s := by
  obtain ⟨s,hist,hrun,hp⟩ := exists_run_of_replay (systemMachine (soloConfig .fourLoops 1))
    (fun _ _ => true) (System.initial _) ([.accept 0,.start 0] ++ soloPush 2)
    (fun s _ => (s.host 0).nextToAdmit == 1) rfl (by decide +kernel)
  exact ⟨s,hist,hrun.run,by simpa using hp,
    window_arithmetic _ 0 (.inr ⟨by decide,.inl (by decide)⟩) hrun.run⟩

theorem one_le_hosts : 1 ≤ 64 := by decide

/-- One host with one token, started with `window_size` 0. -/
def closedWindow : Config 1 where
  args _ := { (soloConfig .fourLoops 1).args 0 with
    windowSize := 0
    windowSize_ge := by decide
    windowSize_lt := by decide }
  hosts_le := one_le_hosts

/-- Nothing checks `window_size`: the initial admission of this host admits nothing. -/
theorem closed_window_stalls : ∃ (s : System 1) (hist : List (Event 1)),
    Run (systemMachine closedWindow) s hist ∧ (s.host 0).control = .admitted [] none ∧
    (s.host 0).windowBase < (closedWindow.args 0).numTokens ∧ (s.host 0).nextToAdmit = 0 ∧
    ¬WindowArithmetic closedWindow 0 s := by
  obtain ⟨s,hist,hrun,hp⟩ := exists_run_of_replay (systemMachine closedWindow)
    (fun _ _ => true) (System.initial _) [.accept 0,.host 0 (.push 0)]
    (fun s _ => (s.host 0).control.idle && (s.host 0).windowBase == 0 &&
      (s.host 0).nextToAdmit == 0) rfl (by decide +kernel)
  simp only [Bool.and_eq_true,beq_iff_eq] at hp
  obtain ⟨⟨hidle,hbase⟩,hnext⟩ := hp
  have hcontrol : (s.host 0).control = .admitted [] none := by
    unfold Control.idle at hidle
    split at hidle
    · assumption
    · cases hidle
  have hnum : (s.host 0).windowBase < (closedWindow.args 0).numTokens := by
    rw [hbase]
    decide
  refine ⟨s,hist,hrun.run,hcontrol,hnum,hnext,?_⟩
  intro hw
  have := hw.unstalled _ _ hcontrol hnum
  omega

end INA2A

import INA2A.Closedown
import INA2A.Window

/-! Every run can be completed.  Between two ticks of the control loops a system with four loops
comes to rest; a tick at rest brings its host one step nearer to its FINISH, whatever order the
steps up to the next rest are taken in; and after the last FINISH everything shuts down. -/
namespace INA2A

open ByteBuffers BitWords EventMachine Inventory

section later

variable {H T : Type} {S : Plan H} {p p' : Progress H T} {ls tr : List (Sign H)} {h : H} {i : ℕ}

/-- Stages from which the host need not ask in vain, once its experts are done. -/
def Stage.served : Stage H T → Bool
  | .idle | .chosen | .asking _ | .asked _ | .answering _ | .returning _ | .done => true
  | _ => false

/-- All experts have sent their results, and the host knows that its dispatch is through. -/
structure Served (p : Progress H T) (h : H) (i : ℕ) : Prop where
  jobs : ∀ e, (p.job h i e).pending = false
  stage : (p.stage h i).served = true

def Closing.isMarked : Closing T → Bool
  | .marked => true
  | _ => false

/-- What holds of every later state of the protocol. -/
structure Later (p p' : Progress H T) : Prop where
  base : ∀ h, p.base h ≤ p'.base h
  done : ∀ h i, p.stage h i = .done → p'.stage h i = .done
  decided : ∀ h, p.fin h ≠ .unfinished → p'.fin h ≠ .unfinished
  marked : ∀ h, (p.fin h).isMarked = true → (p'.fin h).isMarked = true
  served : ∀ h i, Served p h i → Served p' h i
  /-- A pull for a token that is served is answered. -/
  asked : ∀ h i, Served p h i → p.stage h i ≠ .idle → p'.stage h i ≠ .idle

theorem Later.refl (p : Progress H T) : Later p p :=
  ⟨fun _ => le_rfl,fun _ _ => id,fun _ => id,fun _ => id,fun _ _ => id,fun _ _ _ => id⟩

theorem Later.trans {q : Progress H T} (h₁ : Later p q) (h₂ : Later q p') : Later p p' where
  base h := (h₁.base h).trans (h₂.base h)
  done h i hd := h₂.done h i (h₁.done h i hd)
  decided h hd := h₂.decided h (h₁.decided h hd)
  marked h hm := h₂.marked h (h₁.marked h hm)
  served h i hs := h₂.served h i (h₁.served h i hs)
  asked h i hs hne := h₂.asked h i (h₁.served h i hs) (h₁.asked h i hs hne)

theorem TokenStep.served {σ σ' : Stage H T} (hs : TokenStep h i σ ls σ') (hserved : σ.served = true) :
    σ'.served = true ∧ σ' ≠ .idle := by
  cases hs <;> simp [Stage.served] at hserved ⊢

variable [DecidableEq H]

theorem Later.ofStage {σ : Stage H T} (hdone : p.stage h i ≠ .done)
    (hserved : Served p h i → σ.served = true ∧ σ ≠ .idle) : Later p (p.setStage h i σ) where
  base _ := le_rfl
  done g j hd := by
    rw [Progress.setStage_stage,if_neg]
    · exact hd
    · rintro ⟨rfl,rfl⟩
      exact hdone hd
  decided _ := id
  marked _ := id
  served g j hs := by
    refine ⟨hs.jobs,?_⟩
    rw [Progress.setStage_stage]
    split_ifs with hgj
    · obtain ⟨rfl,rfl⟩ := hgj
      exact (hserved hs).1
    · exact hs.stage
  asked g j hs hne := by
    rw [Progress.setStage_stage]
    split_ifs with hgj
    · obtain ⟨rfl,rfl⟩ := hgj
      exact (hserved hs).2
    · exact hne

theorem Later.ofFin {f : Closing T} (hdecided : f ≠ .unfinished) (hmarked : (p.fin h).isMarked = false) :
    Later p (p.setFin h f) where
  base _ := le_rfl
  done _ _ := id
  decided g hg := by
    rw [Progress.setFin_fin]
    split_ifs
    · exact hdecided
    · exact hg
  marked g hg := by
    have hgh : g ≠ h := by
      rintro rfl
      simp [hmarked] at hg
    simpa [hgh] using hg
  served _ _ hs := ⟨hs.jobs,hs.stage⟩
  asked _ _ _ := id

theorem Later.ofJob {e : H} {τ : Job T} (hpending : (p.job h i e).pending = true) :
    Later p (p.setJob h i e τ) where
  base _ := le_rfl
  done _ _ := id
  decided _ := id
  marked _ := id
  served g j hs := by
    refine ⟨fun f => ?_,hs.stage⟩
    rw [Progress.setJob_job,if_neg]
    · exact hs.jobs f
    · rintro ⟨rfl,rfl,rfl⟩
      simp [hs.jobs f] at hpending
  asked _ _ _ := id

theorem Advance.later (ha : Advance S p ls p') (hp : Orderly S p) : Later p p' := by
  cases ha with
  | admission g hnum hwin =>
    have hraw : p.stage g (p.next g) = .raw := (hp.raw g _).mpr le_rfl
    have hstage : Later p (p.setStage g (p.next g) .task) :=
      Later.ofStage (by simp [hraw]) fun hs => by simpa [hraw,Stage.served] using hs.stage
    exact ⟨hstage.base,hstage.done,hstage.decided,hstage.marked,
      fun h i hs => ⟨(hstage.served h i hs).jobs,(hstage.served h i hs).stage⟩,hstage.asked⟩
  | token g j _ σ hs =>
    exact .ofStage hs.frame.2.2.2.2.2.2 fun hserved => hs.served hserved.stage
  | job o j e _ τ hs => exact .ofJob hs.frame.1
  | create g j ts targets hst hnd hsel =>
    have hstage : Later p (p.setStage g j (.fanning ts targets)) :=
      Later.ofStage (by simp [hst]) fun hs => by simpa [hst,Stage.served] using hs.stage
    have hother : ∀ h i, Served p h i → ¬(h = g ∧ i = j) := by
      rintro h i hs ⟨rfl,rfl⟩
      simpa [hst,Stage.served] using hs.stage
    refine ⟨hstage.base,hstage.done,hstage.decided,hstage.marked,?_,hstage.asked⟩
    intro h i hs
    refine ⟨fun e => ?_,(hstage.served h i hs).stage⟩
    rw [Progress.setTargets_job,if_neg fun hmem => hother h i hs ⟨hmem.1,hmem.2.1⟩]
    exact hs.jobs e
  | fanOut g j ts e rest ts' hst =>
    have hstage : Later p (p.setStage g j (.fanning ts rest)) :=
      Later.ofStage (by simp [hst]) fun hs => by simpa [hst,Stage.served] using hs.stage
    refine hstage.trans (.ofJob ?_)
    have htarget : p.job g j e = .target := (hp.target g j e).mpr (by simp [hst,Stage.rest])
    rw [Progress.setStage_job,htarget]
    rfl
  | answer g j ts ts' hst hall =>
    exact .ofStage (by simp [hst]) fun _ => by simp [Stage.served]
  | refuse g j ts ts' hst hex =>
    obtain ⟨e,he⟩ := hex
    exact .ofStage (by simp [hst]) fun hs => by simp [hs.jobs e] at he
  | slide g hnum hdone =>
    refine ⟨fun h => ?_,fun _ _ => id,fun _ => id,fun _ => id,fun _ _ hs => ⟨hs.jobs,hs.stage⟩,
      fun _ _ _ => id⟩
    by_cases hg : h = g
    · subst hg
      simp
    · simp [hg]
  | finish g ts hf hbase => exact .ofFin (by simp) (by simp [hf,Closing.isMarked])
  | close g _ f hs =>
    refine .ofFin hs.frame.2 ?_
    generalize p.fin g = k at hs
    cases hs <;> rfl
  | mark g ts hf => exact .ofFin (by simp) (by simp [hf,Closing.isMarked])
  | markLast g ts hf => exact .ofFin (by simp) (by simp [hf,Closing.isMarked])
  | stop => exact .refl p

theorem moves_later (hp : Orderly S p) (hmoves : Moves (Advance S) p tr p') :
    Orderly S p' ∧ Later p p' :=
  hmoves.invariant (P:=fun q _ => Orderly S q ∧ Later p q) ⟨hp,.refl p⟩
    fun _ _ _ _ hq ha => ⟨hq.1.advance ha,hq.2.trans (ha.later hq.1)⟩

end later

variable {N : ℕ} {c : Config N} {s s' t u : System N} {p p' : Progress (Fin N) U64} {h g : Fin N}
  {v : Host} {env : HostEnv} {hist ev : List (Event N)} {ok : System N → Action N → Prop} {n : ℕ}

theorem Follows.steps (hf : Follows c s p) (hp : Orderly c.plan p)
    (hsteps : Steps (systemMachine c) ok s n t ev) :
    ∃ q, Follows c t q ∧ Orderly c.plan q ∧ Later p q := by
  induction hsteps with
  | refl => exact ⟨p,hf,hp,.refl p⟩
  | tail _ _ hs ih =>
    obtain ⟨q,hq,hqp,hlater⟩ := ih
    obtain ⟨q',hmoves,hq'⟩ := hq.step hqp hs
    obtain ⟨hqp',hlater'⟩ := moves_later hqp hmoves
    exact ⟨q',hq',hqp',hlater.trans hlater'⟩

/-- How many ticks at rest a host needs at most until the switch has marked it finished: two
for a token, and one for its FINISH. -/
def ticksLeft (c : Config N) (s : System N) (h : Fin N) : ℕ :=
  2 * ((c.args h).numTokens - (s.host h).windowBase) +
    (!(s.host h).tokenStates[(s.host h).windowBase]?.any (·.combineDone)).toNat +
    (!decide (h ∈ s.switch.finishedHosts)).toNat

def Progress.ticksLeft (S : Plan (Fin N)) (p : Progress (Fin N) U64) (h : Fin N) : ℕ :=
  2 * (S.num h - p.base h) + (!(p.stage h (p.base h)).isDone).toNat + (!(p.fin h).isMarked).toNat

theorem Closing.isMarked_iff {f : Closing U64} : f.isMarked = true ↔ f = .marked := by
  cases f <;> simp [Closing.isMarked]

theorem Follows.ticksLeft (hf : Follows c s p) (hp : Orderly c.plan p) (h : Fin N) :
    ticksLeft c s h = p.ticksLeft c.plan h := by
  have hm := hf.hosts h
  have hdone : (s.host h).tokenStates[p.base h]?.any (·.combineDone) =
      (p.stage h (p.base h)).isDone := by
    cases hst : (s.host h).tokenStates[p.base h]? with
    | some st => exact (hm.tokens _ st hst).combineDone
    | none =>
      have hlen : c.plan.num h ≤ p.base h := by
        have := List.getElem?_eq_none_iff.mp hst
        rwa [hm.length] at this
      have hnext := hp.next_le h
      rw [(hp.raw h (p.base h)).mpr (by omega)]
      rfl
  have hmarked : decide (h ∈ s.switch.finishedHosts) = (p.fin h).isMarked := by
    rw [Bool.eq_iff_iff,decide_eq_true_eq,hf.finished h,Closing.isMarked_iff]
  simp only [INA2A.ticksLeft,Progress.ticksLeft,hm.base,hdone,hmarked]
  rfl

theorem Later.headDone (hl : Later p p') (hsame : p'.base h = p.base h)
    (hd : (p.stage h (p.base h)).isDone = true) : (p'.stage h (p'.base h)).isDone = true := by
  rw [hsame,hl.done h _ (Stage.eq_done hd)]
  rfl

theorem toNat_not_le {a b : Bool} (h : a = true → b = true) : (!b).toNat ≤ (!a).toNat := by
  cases a <;> cases b <;> simp at h ⊢

theorem Later.ticksLeft_le (hl : Later p p') (hp' : Orderly c.plan p') (h : Fin N) :
    p'.ticksLeft c.plan h ≤ p.ticksLeft c.plan h := by
  have hbound : p'.base h ≤ c.plan.num h := (hp'.base_le h).trans (hp'.next_le h)
  have hmarked := toNat_not_le (hl.marked h)
  have hhead := (!(p'.stage h (p'.base h)).isDone).toNat_le
  unfold Progress.ticksLeft
  rcases (hl.base h).eq_or_lt with hsame | hlt
  · have hdone := toNat_not_le (hl.headDone hsame.symm)
    omega
  · omega

/-- The host has been marked, its window has moved, or the token that held it up is done. -/
theorem Later.ticksLeft_lt (hl : Later p p') (hp' : Orderly c.plan p')
    (hless : (p.fin h).isMarked = false ∧ (p'.fin h).isMarked = true ∨
      p.base h < p'.base h ∧ (p.stage h (p.base h)).isDone = true ∨
      (p.stage h (p.base h)).isDone = false ∧ (p'.stage h (p.base h)).isDone = true) :
    p'.ticksLeft c.plan h < p.ticksLeft c.plan h := by
  have hbound : p'.base h ≤ c.plan.num h := (hp'.base_le h).trans (hp'.next_le h)
  have hmarked := toNat_not_le (hl.marked h)
  have hhead := (!(p'.stage h (p'.base h)).isDone).toNat_le
  unfold Progress.ticksLeft
  rcases (hl.base h).eq_or_lt with hsame | hlt
  · have hdone := toNat_not_le (hl.headDone hsame.symm)
    rcases hless with ⟨hnot,hyes⟩ | ⟨hmoved,-⟩ | ⟨hnot,hyes⟩
    · simp only [hnot,hyes,Bool.not_false,Bool.not_true,Bool.toNat_true,Bool.toNat_false]
      omega
    · omega
    · rw [hsame] at hyes
      simp only [hnot,hyes,Bool.not_false,Bool.not_true,Bool.toNat_true,Bool.toNat_false]
      omega
  · rcases hless with ⟨hnot,hyes⟩ | ⟨-,hdone⟩ | ⟨hnot,-⟩
    · simp only [hnot,hyes,Bool.not_false,Bool.not_true,Bool.toNat_true,Bool.toNat_false]
      omega
    · omega
    · simp only [hnot,Bool.not_false,Bool.toNat_true]
      omega

section tick

variable {now : ℕ} {ts : U64} {i : ℕ} {st : TokenWindowState}

theorem controlTick_finishes (now : ℕ) (ts : U64) (hrun : v.running = true)
    (hall : env.numTokens ≤ v.receivedCombines) :
    (controlTick env v now ts).finishEnqueued = true := by
  unfold controlTick
  rw [if_pos hrun]
  dsimp only
  cases v.finishEnqueued with
  | true => rfl
  | false => simpa using hall.trans (Nat.le_add_right _ _)

theorem controlTick_tokens (env : HostEnv) (now : ℕ) (ts : U64) (hrun : v.running = true) :
    (controlTick env v now ts).tokenStates[i]? = if i ∈ needPull v now then
      v.tokenStates[i]?.map (fun st => { st with pullInflight := true }) else v.tokenStates[i]? := by
  unfold controlTick
  rw [if_pos hrun]
  exact updateTokens_get _ (List.Nodup.filter _ List.nodup_range') _ i

theorem controlTick_slides (env : HostEnv) (now : ℕ) (ts : U64) (hrun : v.running = true)
    (hlt : v.windowBase < env.numTokens) (hst : v.tokenStates[v.windowBase]? = some st)
    (hdone : st.combineDone = true) :
    v.windowBase < (controlTick env v now ts).windowBase := by
  have hget := controlTick_tokens env now ts (i:=v.windowBase) hrun
  unfold controlTick at hget ⊢
  rw [if_pos hrun] at hget ⊢
  dsimp only at hget ⊢
  generalize updateTokens _ _ _ = states at hget ⊢
  obtain ⟨fuel,hfuel⟩ : ∃ fuel, env.numTokens - v.windowBase = fuel + 1 :=
    ⟨env.numTokens - v.windowBase - 1,by omega⟩
  have hhead : states[v.windowBase]?.any (·.combineDone) = true := by
    rw [hget,hst]
    split_ifs <;> simpa using hdone
  obtain ⟨n,-,heq,-⟩ := slideWindow_eq states fuel (v.windowBase + 1)
  rw [hfuel,slideWindow,if_pos hhead,heq]
  omega

theorem controlTick_pulls (env : HostEnv) (ts : U64) (hrun : v.running = true)
    (hbase : v.windowBase ≤ i) (hnext : i < v.nextToAdmit) (hst : v.tokenStates[i]? = some st)
    (hdue : st.pullDue now = true) :
    ∃ st', (controlTick env v now ts).tokenStates[i]? = some st' ∧ st'.pullInflight = true := by
  have hmem : i ∈ needPull v now := by
    refine List.mem_filter.mpr ⟨List.mem_range'_1.mpr ⟨hbase,by omega⟩,?_⟩
    rw [hst]
    exact hdue
  refine ⟨{ st with pullInflight := true },?_,rfl⟩
  rw [controlTick_tokens env now ts hrun,if_pos hmem,hst]
  rfl

end tick

/-- The steps that wait for no clock have been taken, in some order, to the last. -/
def Settles (c : Config N) (s t : System N) : Prop :=
  ∃ n ev, Steps (systemMachine c) prompt s n t ev ∧ AtRest c t

/-- Every token that was refused a result may be asked for again. -/
def Late (v : Host) (now : ℕ) : Prop := ∀ st ∈ v.tokenStates, st.nextPullTime ≤ now

/-- The system comes to rest, and after each tick of a control loop again; the list names the
hosts that tick. -/
inductive Rounds (c : Config N) (s : System N) : List (Fin N) → System N → Prop
  | settle {t : System N} : Settles c s t → Rounds c s [] t
  | tick {l : List (Fin N)} {t t' u : System N} {h : Fin N} {now : ℕ} {ts : U64}
      {ev : List (Event N)} : Rounds c s l t → Late (t.host h) now →
      systemStep c t (.host h (.tick now ts)) = some (t',ev) → Settles c t' u →
      Rounds c s (l ++ [h]) u

/-- Nothing is under way, so every token and every FINISH is where it waits for a tick. -/
structure Rested (p : Progress (Fin N) U64) : Prop where
  stage : ∀ h i, p.stage h i = .raw ∨ p.stage h i = .idle ∨ p.stage h i = .done
  job : ∀ h i e, p.job h i e = .absent ∨ p.job h i e = .target ∨ p.job h i e = .accepted
  fin : ∀ h, p.fin h = .unfinished ∨ p.fin h = .marked

theorem Follows.rested (hf : Follows c s p) (hempty : ∀ h, items s h = 0) : Rested p := by
  have hstock : ∀ h tag, c.stock p h tag = 0 := by
    intro h tag
    rw [← hf.stocked h tag,hempty h]
    rfl
  refine ⟨fun h i => ?_,fun h i e => ?_,fun h => ?_⟩
  · have hnone : (p.stage h i).items c h i = 0 := hstock h (.main i)
    cases hst : p.stage h i <;> simp [hst,Stage.items] at hnone ⊢
  · have hnone : (p.job h i e).items c h i e = 0 := hstock e (.job h i)
    cases hj : p.job h i e <;> simp [hj,Job.items] at hnone ⊢
  · have hnone : (p.fin h).items c h = 0 := hstock h .fin
    cases hfin : p.fin h <;> simp [hfin,Closing.items] at hnone ⊢

theorem Rested.served (hrested : Rested p) (hp : Orderly c.plan p) {i : ℕ} (hidle : p.stage h i = .idle) :
    Served p h i := by
  refine ⟨fun e => ?_,by rw [hidle]; rfl⟩
  rcases hrested.job h i e with hj | hj | hj
  · simp [hj,Job.pending]
  · have := (hp.target h i e).mp hj
    simp [hidle,Stage.rest] at this
  · simp [hj,Job.pending]

theorem Settles.run (hset : Settles c s t) (hr : Run (systemMachine c) s hist) :
    ∃ hist', Run (systemMachine c) t hist' := by
  obtain ⟨n,ev,hsteps,-⟩ := hset
  exact ⟨_,hr.steps (hsteps.weaken fun _ _ _ => trivial)⟩

theorem AtRest.tick (hrest : AtRest c s) (hmode : (c.args h).mode = .fourLoops) (now : ℕ) (ts : U64) :
    systemStep c s (.host h (.tick now ts)) =
      some (s.setHost h (controlTick (c.env h) (s.host h) now ts),[]) := by
  have henv : (c.env h).mode = .fourLoops := hmode
  simp [systemStep,hrest.accepted,INA2A.hostStep,Host.mayControl,henv,tickStep,hrest.control hmode,
    Control.idle]

/-- At rest, before the last FINISH, a tick that is late enough brings its host on, whatever
order the steps after it are taken in. -/
theorem tick_helps (hmode : ∀ h, (c.args h).mode = .fourLoops)
    (hfits : (c.args h).numTokens = 0 ∨ c.WindowFits h) (hr : Run (systemMachine c) s hist)
    (hf : Follows c s p) (hp : Orderly c.plan p) (hne : ¬p.allMarked) (hrest : AtRest c s)
    {now : ℕ} {ts : U64} (hlate : Late (s.host h) now) {q : Progress (Fin N) U64}
    (hf' : Follows c (s.setHost h (controlTick (c.env h) (s.host h) now ts)) p')
    (hl : Later p p') (hq : Rested q) (hqp : Orderly c.plan q)
    (hl' : Later p' q) (hunmarked : p.fin h ≠ .marked) :
    q.ticksLeft c.plan h < p.ticksLeft c.plan h := by
  have hrested : Rested p := hf.rested fun g =>
    hrest.nothingUnderWay hmode (sendsWhatItWrites_of_run hr) hf hne g
  have hrun := (hf.hostRunning hne h).running
  have hm := hf.hosts h
  have hm' := hf'.hosts h
  rw [setHost_host_self] at hm'
  have hnum : (c.env h).numTokens = c.plan.num h := env_numTokens c h
  have hunfinished := (hrested.fin h).resolve_right hunmarked
  have hall := hl.trans hl'
  have hbase_le := hp.base_le h
  have hnext_le := hp.next_le h
  refine hall.ticksLeft_lt hqp ?_
  rcases Nat.lt_or_ge (p.base h) (c.plan.num h) with hlt | hge
  · -- some token is left, and the window has let it in
    have hadmitted : p.base h < p.next h := by
      rcases hfits with hzero | hfits
      · have : c.plan.num h = 0 := hzero
        omega
      · have hfilled := (run_filled hfits hr).filled
          (Control.unadmitted_of_idle (by rw [hrest.control (hmode h)]; rfl))
        have hpos := hfits.1
        have hplan : c.plan.num h = (c.args h).numTokens := rfl
        rw [hm.base,hm.next] at hfilled
        omega
    obtain ⟨st,hst⟩ : ∃ st, (s.host h).tokenStates[p.base h]? = some st :=
      List.getElem?_eq_some_iff.mpr ⟨by rw [hm.length]; exact hlt,rfl⟩ |> fun hget => ⟨_,hget⟩
    have htoken := hm.tokens _ st hst
    rcases hrested.stage h (p.base h) with hraw | hidle | hdone
    · have := (hp.raw h _).mp hraw
      omega
    · -- idle: the tick pulls it, and nobody can refuse
      have hserved := hrested.served hp hidle
      have hdue : st.pullDue now = true := by
        have hnow := hlate st (List.mem_of_getElem? hst)
        simp [TokenWindowState.pullDue,htoken.admitted,htoken.attentionDone,htoken.dispatchAcked,
          htoken.combineDone,htoken.pullInflight,hidle,Stage.admitted,Stage.attentionDone,
          Stage.dispatchAcked,Stage.isDone,Stage.pullInflight,hnow]
      obtain ⟨st',hst',hpulled⟩ := controlTick_pulls (c.env h) ts hrun hm.base.le
        (by rw [hm.next]; exact hadmitted) hst hdue
      have hasked : p'.stage h (p.base h) ≠ .idle := by
        intro hidle'
        rw [(hm'.tokens _ st' hst').pullInflight,hidle'] at hpulled
        cases hpulled
      have hserved' := hl'.served h _ (hl.served h _ hserved)
      have hnot := hl'.asked h _ (hl.served h _ hserved) hasked
      refine .inr (.inr ⟨by rw [hidle]; rfl,?_⟩)
      rcases hq.stage h (p.base h) with hraw' | hidle' | hdone'
      · have := hserved'.stage
        simp [hraw',Stage.served] at this
      · exact absurd hidle' hnot
      · rw [hdone']
        rfl
    · -- done: the window slides over it
      refine .inr (.inl ⟨?_,by rw [hdone]; rfl⟩)
      have hcombined : st.combineDone = true := by
        rw [htoken.combineDone,hdone]
        rfl
      have hslides := controlTick_slides (c.env h) now ts hrun
        (by rw [hm.base,hnum]; exact hlt) (by rw [hm.base]; exact hst) hcombined
      rw [hm.base,hm'.base] at hslides
      exact hslides.trans_le (hl'.base h)
  · -- all results are there: the tick decides on FINISH, and at rest the switch has it
    refine .inl ⟨by rw [hunfinished]; rfl,?_⟩
    have hfinishes := controlTick_finishes now ts hrun
      (by rw [hm.received,hnum]; exact hge)
    have hdecided := hl'.decided h (hm'.finishEnqueued.mp hfinishes)
    rw [(hq.fin h).resolve_left hdecided]
    rfl

theorem AtRest.rested (hrest : AtRest c s) (hN : 0 < N) (hmode : ∀ h, (c.args h).mode = .fourLoops)
    (hr : Run (systemMachine c) s hist) (hf : Follows c s p) : Rested p := by
  have hw := sendsWhatItWrites_of_run hr
  apply hf.rested
  intro h
  obtain ⟨q,hq,hqp,hend⟩ := run_ending hN hmode hr
  by_cases hall : q.allMarked
  · obtain ⟨untold,he⟩ := hend hall
    exact (he.completed hq hqp hall hmode hw hrest).quiescent.hands h
  · exact hrest.nothingUnderWay hmode hw hq hall h

theorem ticksLeft_le (c : Config N) (s : System N) (h : Fin N) :
    ticksLeft c s h ≤ 2 * (c.args h).numTokens + 2 := by
  have h₁ := (!(s.host h).tokenStates[(s.host h).windowBase]?.any (·.combineDone)).toNat_le
  have h₂ := (!decide (h ∈ s.switch.finishedHosts)).toNat_le
  unfold ticksLeft
  omega

/-- What the rounds have come to: a host is marked, or has used its ticks. -/
structure Reaches (c : Config N) (l : List (Fin N)) (t : System N) : Prop where
  run : ∃ hist, Run (systemMachine c) t hist
  rest : AtRest c t
  ticks : ∀ h, h ∈ t.switch.finishedHosts ∨
    ticksLeft c t h + l.count h ≤ 2 * (c.args h).numTokens + 2

theorem Reaches.tick (hN : 0 < N) (hmode : ∀ h, (c.args h).mode = .fourLoops)
    (hfits : ∀ h, (c.args h).numTokens = 0 ∨ c.WindowFits h) {l : List (Fin N)}
    (ht : Reaches c l t) {now : ℕ} {ts : U64} (hlate : Late (t.host g) now)
    (hs : systemStep c t (.host g (.tick now ts)) = some (s',ev)) (hset : Settles c s' u) :
    Reaches c (l ++ [g]) u := by
  obtain ⟨hist,hr⟩ := ht.run
  obtain ⟨hist',hru⟩ := hset.run (hr.step (a:=.host g (.tick now ts)) hs)
  obtain ⟨p,hf,hp,-⟩ := run_ending hN hmode hr
  obtain ⟨p',hmoves,hf'⟩ := hf.step hp hs
  obtain ⟨hp',hl⟩ := moves_later hp hmoves
  obtain ⟨n,ev',hsteps,hrest⟩ := hset
  obtain ⟨q,hq,hqp,hl'⟩ := hf'.steps hp' hsteps
  have hafter : s' = t.setHost g (controlTick (c.env g) (t.host g) now ts) := by
    rw [ht.rest.tick (hmode g)] at hs
    exact (Prod.mk.inj (Option.some.inj hs)).1.symm
  refine ⟨⟨hist',hru⟩,hrest,fun h => ?_⟩
  rcases ht.ticks h with hmarked | hticks
  · left
    rw [hf.finished,← Closing.isMarked_iff] at hmarked
    rw [hq.finished,← Closing.isMarked_iff]
    exact hl'.marked h (hl.marked h hmarked)
  · by_cases hmarked : p.fin h = .marked
    · left
      rw [← Closing.isMarked_iff] at hmarked
      rw [hq.finished,← Closing.isMarked_iff]
      exact hl'.marked h (hl.marked h hmarked)
    · right
      rw [hf.ticksLeft hp] at hticks
      rw [hq.ticksLeft hqp,List.count_append,List.count_singleton]
      have hle := (hl.trans hl').ticksLeft_le hqp h
      by_cases hg : g = h
      · subst hg
        have hlt := tick_helps hmode (hfits g) hr hf hp (fun hall => hmarked (hall g)) ht.rest hlate
          (by rwa [hafter] at hf') hl
          (hrest.rested hN hmode hru hq) hqp hl' hmarked
        simp only [BEq.rfl,if_true]
        omega
      · simp only [beq_iff_eq,hg,if_false]
        omega

theorem Rounds.reaches (hN : 0 < N) (hmode : ∀ h, (c.args h).mode = .fourLoops)
    (hfits : ∀ h, (c.args h).numTokens = 0 ∨ c.WindowFits h) (hr : Run (systemMachine c) s hist)
    {l : List (Fin N)} (hrounds : Rounds c s l t) : Reaches c l t := by
  induction hrounds with
  | settle hset =>
    obtain ⟨hist',hr'⟩ := hset.run hr
    obtain ⟨-,-,-,hrest⟩ := hset
    exact ⟨⟨hist',hr'⟩,hrest,fun h => .inr (by simpa using ticksLeft_le c _ h)⟩
  | tick _ hlate hs hset ih => exact ih.tick hN hmode hfits hlate hs hset

/-- Whatever order the steps between the ticks are taken in, so many ticks of every host are
enough. -/
theorem rounds_complete (c : Config N) (hN : 0 < N) (hmode : ∀ h, (c.args h).mode = .fourLoops)
    (hfits : ∀ h, (c.args h).numTokens = 0 ∨ c.WindowFits h) {s t : System N}
    {hist : List (Event N)} (hr : Run (systemMachine c) s hist) {l : List (Fin N)}
    (hrounds : Rounds c s l t) (hticks : ∀ h, 2 * (c.args h).numTokens + 2 ≤ l.count h) :
    Completed c t := by
  obtain ⟨⟨hist',hr'⟩,hrest,hleft⟩ := hrounds.reaches hN hmode hfits hr
  obtain ⟨p,hf,hp,hend⟩ := run_ending hN hmode hr'
  have hall : p.allMarked := by
    intro h
    rw [← hf.finished]
    by_contra hmarked
    have hle := (hleft h).resolve_left hmarked
    have hcount := hticks h
    have hone : 1 ≤ ticksLeft c t h := by
      simp [ticksLeft,hmarked]
    omega
  obtain ⟨untold,he⟩ := hend hall
  exact he.completed hf hp hall hmode (sendsWhatItWrites_of_run hr') hrest

theorem prompt_effort (hmode : ∀ h, (c.args h).mode = .fourLoops) (s : System N) (a : Action N)
    (s' : System N) (ev : List (Event N)) (hok : prompt s a)
    (hs : (systemMachine c).step s a = some (s',ev)) : effort c s' < effort c s :=
  systemStep_effort hmode hok.1 hs

theorem exists_settles (hmode : ∀ h, (c.args h).mode = .fourLoops) (s : System N) :
    ∃ t, Settles c s t := by
  obtain ⟨n,t,ev,hsteps,hrest⟩ := exists_resting (prompt_effort hmode) s
  exact ⟨t,n,ev,hsteps,hrest⟩

theorem exists_late (v : Host) : ∃ now, Late v now :=
  ⟨(v.tokenStates.map (·.nextPullTime)).sum,fun _ hst =>
    List.single_le_sum (fun _ _ => Nat.zero_le _) _ (List.mem_map_of_mem hst)⟩

theorem exists_rounds (hmode : ∀ h, (c.args h).mode = .fourLoops) (s : System N)
    (l : List (Fin N)) : ∃ t, Rounds c s l t := by
  induction l using List.reverseRecOn with
  | nil =>
    obtain ⟨t,ht⟩ := exists_settles hmode s
    exact ⟨t,.settle ht⟩
  | append_singleton l h ih =>
    obtain ⟨t,ht⟩ := ih
    have hrest : AtRest c t := by
      cases ht with
      | settle hset => exact hset.choose_spec.choose_spec.2
      | tick _ _ _ hset => exact hset.choose_spec.choose_spec.2
    obtain ⟨now,hlate⟩ := exists_late (t.host h)
    obtain ⟨u,hset⟩ := exists_settles hmode
      (t.setHost h (controlTick (c.env h) (t.host h) now 0))
    exact ⟨u,ht.tick hlate (hrest.tick (hmode h) now 0) hset⟩

theorem soloConfig_fits {mode : LoopMode} {tokens : Fin 8} (hpos : 1 ≤ tokens.val) (h : Fin 1) :
    (soloConfig mode tokens).WindowFits h :=
  ⟨Int.ofNat_le.mpr hpos,.inl le_rfl⟩

theorem rounds_complete_sample : ∃ t, Rounds (soloConfig .fourLoops 1)
      (System.initial (soloConfig .fourLoops 1)) [0,0,0,0] t ∧
    Completed (soloConfig .fourLoops 1) t := by
  obtain ⟨t,ht⟩ := exists_rounds (c:=soloConfig .fourLoops 1) (fun _ => rfl) (System.initial _)
    [0,0,0,0]
  exact ⟨t,ht,rounds_complete _ (by decide) (fun _ => rfl)
    (fun h => .inr (soloConfig_fits (by decide) h)) (.start rfl) ht (by decide)⟩

theorem Rounds.steps {l : List (Fin N)} (hrounds : Rounds c s l t) :
    ∃ n ev, Steps (systemMachine c) (fun s a => oneSlot s a = true) s n t ev := by
  have hset : ∀ {s t}, Settles c s t →
      ∃ n ev, Steps (systemMachine c) (fun s a => oneSlot s a = true) s n t ev := by
    rintro s t ⟨n,ev,hsteps,-⟩
    exact ⟨n,ev,hsteps.weaken fun _ _ hok => hok.2⟩
  induction hrounds with
  | settle h => exact hset h
  | @tick _ _ _ _ h now ts _ _ _ hs hu ih =>
    obtain ⟨n,ev,hsteps⟩ := ih
    obtain ⟨m,ev',hrest⟩ := hset hu
    have htick : (systemMachine c).step _ (.host h (.tick now ts)) = some _ := hs
    exact ⟨_,_,(hsteps.tail rfl htick).trans hrest⟩

variable {σ : Threads N}

theorem ThreadRun.exists_free (hmode : ∀ h, (c.args h).mode = .fourLoops)
    (hr : ThreadRun c σ hist) : ∃ n τ ev,
      Steps (threadMachine c) (fun σ a => performs oneSlot σ a = true) σ n τ ev ∧
        ∀ t, τ.phase t = .free := by
  refine EventMachine.exists_free (P:=fun σ => ∃ hist, ThreadRun c σ hist) ?_ ?_ ?_ ⟨hist,hr⟩
  · rintro σ ⟨hist,hr⟩
    exact hr.placed
  · rintro σ ⟨hist,hr⟩ t m hwant
    exact section_live hmode (sendsWhatItWrites_of_run hr.run) t m hwant
  · rintro σ n τ ev ⟨hist,hr⟩ hsteps
    exact ⟨_,hr.steps hsteps⟩

/-- From every state that the threads can reach, with whatever mutexes held and messages unread,
they can go on to the end of the run. -/
theorem run_completes (c : Config N) (hN : 0 < N) (hmode : ∀ h, (c.args h).mode = .fourLoops)
    (hfits : ∀ h, (c.args h).numTokens = 0 ∨ c.WindowFits h) {σ : Threads N}
    {hist : List (Event N)} (hr : ThreadRun c σ hist) : ∃ n τ ev,
      Steps (threadMachine c) (fun σ a => performs oneSlot σ a = true) σ n τ ev ∧
        Completed c τ.state ∧ ∀ t, τ.phase t = .free := by
  obtain ⟨n,τ,ev,hsteps,hfree⟩ := hr.exists_free hmode
  have hrun : Run (systemMachine c) τ.state (hist ++ ev) :=
    ThreadRun.run (hr.steps hsteps)
  have hτ : τ = ⟨τ.state,fun _ => .free⟩ := by
    cases τ
    simp only [LockState.mk.injEq,true_and]
    exact funext hfree
  -- enough rounds in which every host ticks once
  let most := ∑ h, (2 * (c.args h).numTokens + 2)
  obtain ⟨t,hrounds⟩ := exists_rounds hmode τ.state
    ((List.replicate most (List.finRange N)).flatten)
  obtain ⟨m,ev',hrest⟩ := hrounds.steps
  obtain ⟨k,hk⟩ := hrest.locked (L:=c.sections)
  rw [hτ] at hsteps
  refine ⟨n + k,_,ev ++ ev',hsteps.trans hk,?_,fun _ => rfl⟩
  refine rounds_complete c hN hmode hfits hrun hrounds fun h => ?_
  have hone : (List.finRange N).count h = 1 :=
    List.count_eq_one_of_mem (List.nodup_finRange N) (List.mem_finRange h)
  rw [List.count_flatten,List.map_replicate,List.sum_replicate,hone,smul_eq_mul,mul_one]
  exact Finset.single_le_sum (f:=fun h => 2 * (c.args h).numTokens + 2) (fun _ _ => Nat.zero_le _)
    (Finset.mem_univ h)

theorem run_completes_sample : ∃ (σ : Threads 1) (hist : List (Event 1)),
    ThreadRun (soloConfig .fourLoops 3) σ hist ∧ writesToSwitch σ.state 0 = true ∧
    σ.state.toSwitch 0 ≠ [] ∧ ∃ n τ ev,
      Steps (threadMachine (soloConfig .fourLoops 3)) (fun σ a => performs oneSlot σ a = true) σ n
        τ ev ∧ Completed (soloConfig .fourLoops 3) τ.state ∧ ∀ t, τ.phase t = .free := by
  obtain ⟨s,hist,hrun,hp⟩ := exists_run_of_replay (systemMachine (soloConfig .fourLoops 3))
    oneSlot (System.initial _) soloBacklog
    (fun s _ => writesToSwitch s 0 && !(s.toSwitch 0).isEmpty) rfl (by decide +kernel)
  simp only [Bool.and_eq_true,Bool.not_eq_true',List.isEmpty_eq_false_iff] at hp
  exact ⟨⟨s,fun _ => .free⟩,hist,hrun.locked,hp.1,hp.2,
    run_completes _ (by decide) (fun _ => rfl) (fun h => .inr (soloConfig_fits (by decide) h))
      hrun.locked⟩

end INA2A

import INA2A.Threads

/-! The waits-for relation of the threads has no cycle, as long as no combined loop is caught
between its own write and the answer of its reader at the switch. -/
namespace INA2A

open ByteBuffers BitWords EventMachine

variable {N : ℕ} {c : Config N} {s : System N} {v v' : Host} {env : HostEnv} {g : Fin N}
  {ev hist : List (Event N)}

/-- A combined loop that is inside `sr_write` is draining its queue. -/
def Drains (env : HostEnv) (v : Host) : Prop :=
  env.mode ≠ .fourLoops → ∀ m, v.sending = .writing m → ∃ n, v.turn = .drain n

theorem sendStep_drains (hmay : v.maySend env = true) (hs : sendStep env v = some v') :
    Drains env v' := by
  intro hmode m hm
  have hturn : ∃ n, v.turn = .drain n := by
    unfold Host.maySend at hmay
    split at hmay <;> simp_all
  unfold sendStep at hs
  split at hs
  · rename_i htop
    rw [if_neg hmode] at hs
    split at hs
    · split_ifs at hs <;> cases hs
      · exact ⟨_,rfl⟩
      · simp [htop] at hm
    · cases hs
      simp [htop] at hm
    · cases hs
  · split at hs
    · split_ifs at hs
      cases hs
      cases hm
    · cases hs
      exact hturn
  · cases hs

theorem hostStep_drains {a : HostAction} (hd : Drains env v)
    (hs : hostStep g env v a = some (v',ev)) : Drains env v' := by
  intro hmode m hm
  have hk := hostStep_keeps hs
  have hbefore : a.part ≠ .send → ∃ n, v.turn = .drain n := by
    intro hpart
    rw [hk.sending hpart] at hm
    exact hd hmode m hm
  have hio : a.part = .control ∨ a.part = .compute → env.mode = .ioCombined →
      ∃ n, v'.turn = .drain n := by
    intro hpart hio
    rw [hk.turn hio hpart]
    apply hbefore
    rcases hpart with hpart | hpart <;> simp [hpart]
  have hall : env.mode ≠ .ioCombined → env.mode = .allCombined := by
    cases hcase : env.mode <;> simp_all
  cases a with
  | send =>
    simp only [hostStep] at hs
    split_ifs at hs with hmay
    obtain ⟨w,hw,heq⟩ := Option.map_eq_some_iff.mp hs
    cases heq
    exact sendStep_drains hmay hw hmode m hm
  | read now =>
    obtain ⟨n,hn⟩ := hbefore (by simp [HostAction.part])
    simp only [hostStep] at hs
    split_ifs at hs with hmay
    unfold Host.mayRead at hmay
    split at hmay <;> simp_all
  | tick now ts =>
    by_cases hcase : env.mode = .ioCombined
    · exact hio (.inl rfl) hcase
    · obtain ⟨n,hn⟩ := hbefore (by simp [HostAction.part])
      simp [hostStep,Host.mayControl,hall hcase,hn] at hs
  | push ts =>
    by_cases hcase : env.mode = .ioCombined
    · exact hio (.inl rfl) hcase
    · obtain ⟨n,hn⟩ := hbefore (by simp [HostAction.part])
      simp [hostStep,Host.mayControl,hall hcase,hn] at hs
  | compute ts =>
    by_cases hcase : env.mode = .ioCombined
    · exact hio (.inr rfl) hcase
    · obtain ⟨n,hn⟩ := hbefore (by simp [HostAction.part])
      simp [hostStep,Host.mayCompute,hall hcase,hn] at hs

theorem Drains.afterRead (hd : Drains env v) (hmay : v.mayRead env = true)
    (hsend : v'.sending = v.sending) : Drains env v' := by
  intro hmode m hm
  obtain ⟨n,hn⟩ := hd hmode m (hsend ▸ hm)
  unfold Host.mayRead at hmay
  split at hmay <;> simp_all

theorem HostChange.drains {h : Fin N} {a : Action N} (hc : HostChange c h v a v' ev)
    (hd : Drains (c.env h) v) : Drains (c.env h) v' := by
  cases hc with
  | loop hr => exact hostStep_drains hd hr
  | wrote m =>
    intro _ m hm
    cases hm
  | writeFailed f =>
    intro hmode m hm
    simp [INA2A.writeFailed,hmode] at hm
  | got m hmay => exact hd.afterRead hmay rfl
  | readFailed f hmay => exact hd.afterRead hmay rfl

theorem systemStep_drains {s' : System N} {a : Action N} (hd : ∀ h, Drains (c.env h) (s.host h))
    (hs : systemStep c s a = some (s',ev)) : ∀ h, Drains (c.env h) (s'.host h) := by
  intro h
  rcases systemStep_host_or hs h with hsame | hc
  · rw [hsame]
    exact hd h
  · exact hc.drains (hd h)

theorem drains_of_run (hr : Run (systemMachine c) s hist) : ∀ h, Drains (c.env h) (s.host h) := by
  refine hr.invariant (P := fun s _ => ∀ h, Drains (c.env h) (s.host h)) ?_ ?_
  · rintro s rfl h _ m hm
    cases hm
  · intro s hist a s' ev _ hd _ hs
    exact systemStep_drains hd hs

variable {σ : Threads N} {t : Thread N} {h : Fin N}

theorem ThreadRun.run (hr : ThreadRun c σ hist) : Run (systemMachine c) σ.state hist :=
  hr.unlocked.run

theorem ThreadRun.placed (hr : ThreadRun c σ hist) : Placed c.sections σ := by
  refine hr.invariant (P := fun σ _ => Placed c.sections σ) ?_ ?_
  · intro σ hi t m ht
    simp [hi.2 t] at ht
  · intro σ hist a σ' ev _ hp _ hs
    exact (lockStep_move hs).placed hp fun b r ev t m hstep hne hw => wants_stable hstep hne hw

/-- Host `h` is inside `sr_write`. -/
def writesToSwitch (s : System N) (h : Fin N) : Bool :=
  match (s.host h).sending with
  | .writing _ => true
  | _ => false

theorem writesToSwitch_iff : writesToSwitch s h = true ↔ ∃ m, (s.host h).sending = .writing m := by
  unfold writesToSwitch
  split <;> simp_all

theorem no_section_of_writing (hd : ∀ h, Drains (c.env h) (s.host h))
    (hw : writesToSwitch s h = true) (m : Mutex N) :
    ¬Wants c.sections s (c.thread h .send) m := by
  obtain ⟨msg,hmsg⟩ := writesToSwitch_iff.mp hw
  rintro ⟨b,hthread,hb⟩
  change b.thread c = _ at hthread
  change actionMutex c s b = some m at hb
  cases b with
  | host g b =>
    simp only [Action.thread,Config.thread,Thread.host.injEq] at hthread
    obtain ⟨rfl,hruns⟩ := hthread
    simp only [actionMutex] at hb
    split_ifs at hb
    cases hmode : (c.args g).mode with
    | fourLoops =>
      simp only [hmode,LoopMode.runs] at hruns
      cases b <;> simp [HostAction.part] at hruns
      simp [hostMutex,sendMutex,hmsg] at hb
    | ioCombined =>
      obtain ⟨n,hn⟩ := hd g (by simp [Config.env,hmode]) msg hmsg
      simp only [hmode] at hruns
      cases b <;> simp [HostAction.part,LoopMode.runs] at hruns
      · simp [hostMutex,sendMutex,hmsg] at hb
      · simp [hostMutex,Host.mayRead,Config.env,hmode,hn] at hb
    | allCombined =>
      obtain ⟨n,hn⟩ := hd g (by simp [Config.env,hmode]) msg hmsg
      cases b <;> simp [hostMutex,sendMutex,Host.mayControl,Host.mayCompute,Host.mayRead,
        Config.env,hmode,hn,hmsg] at hb
  | _ => simp [actionMutex,Action.thread,Config.thread] at hb hthread

theorem readerMutex_of_sending {q : ReaderPos N} (hsend : sendTarget h q ≠ none) :
    readerMutex q = none := by
  cases q with
  | broadcasting rid rest => cases rest <;> simp [sendTarget,readerMutex] at hsend ⊢
  | _ => simp [sendTarget,readerMutex] at hsend ⊢

theorem no_section_of_sending (hsend : sendTarget h (s.switch.reader h) ≠ none) (m : Mutex N) :
    ¬Wants c.sections s (.reader h) m := by
  rintro ⟨b,hthread,hb⟩
  change b.thread c = _ at hthread
  change actionMutex c s b = some m at hb
  cases b with
  | reader r ts =>
    simp only [Action.thread,Thread.reader.injEq] at hthread
    subst hthread
    simp [actionMutex,readerMutex_of_sending hsend] at hb
  | _ => simp [actionMutex,Action.thread,Config.thread] at hb hthread

/-- How far a thread is from one that nothing holds up.  A combined loop with something unread
ranks below the readers of the switch, any other writer above them. -/
def rank (c : Config N) (σ : Threads N) (t : Thread N) : ℕ :=
  match σ.phase t with
  | .holding _ => 0
  | .waiting _ => 1
  | .free =>
    match t with
    | .host h q =>
      if writesToSwitch σ.state h ∧ c.thread h .send = .host h q then
        if c.thread h .read = .host h q ∧ σ.state.toHost h ≠ [] then 2 else 5
      else 0
    | .reader r =>
      if sendTarget r (σ.state.switch.reader r) = none then 0
      else if σ.state.switch.writing r = none then 4 else 3
    | .main => 0

/-- No combined loop is blocked in `sr_write` with something unread while its reader at the
switch is sending. -/
def Clear (c : Config N) (s : System N) : Prop :=
  ∀ h, c.thread h .send = c.thread h .read → writesToSwitch s h = true → s.toSwitch h ≠ [] →
    s.toHost h ≠ [] → sendTarget h (s.switch.reader h) = none

theorem rank_le_of_not_free (hne : σ.phase t ≠ .free) : rank c σ t ≤ 1 := by
  unfold rank
  split <;> simp_all

theorem rank_writer (hfree : σ.phase (c.thread h .send) = .free)
    (hw : writesToSwitch σ.state h = true) : rank c σ (c.thread h .send) =
      if c.thread h .read = c.thread h .send ∧ σ.state.toHost h ≠ [] then 2 else 5 := by
  have hthread : c.thread h .send = .host h ((c.args h).mode.runs .send) := rfl
  rw [hthread] at hfree ⊢
  simp [rank,hfree,hw,hthread]

theorem rank_reader (hfree : σ.phase (.reader h) = .free)
    (hsend : sendTarget h (σ.state.switch.reader h) ≠ none) :
    rank c σ (.reader h) = if σ.state.switch.writing h = none then 4 else 3 := by
  simp [rank,hfree,hsend]

theorem rank_idle_reader (hsend : sendTarget h (σ.state.switch.reader h) = none) :
    rank c σ (.reader h) ≤ 1 := by
  by_cases hfree : σ.phase (.reader h) = .free
  · simp [rank,hfree,hsend]
  · exact rank_le_of_not_free hfree

theorem rank_reader_le : rank c σ (.reader h) ≤ 4 := by
  by_cases hfree : σ.phase (.reader h) = .free
  · by_cases hsend : sendTarget h (σ.state.switch.reader h) = none
    · exact (rank_idle_reader hsend).trans (by omega)
    · rw [rank_reader hfree hsend]
      split_ifs <;> omega
  · exact (rank_le_of_not_free hfree).trans (by omega)

theorem rank_read_le (hunread : σ.state.toHost h ≠ []) : rank c σ (c.thread h .read) ≤ 2 := by
  by_cases hfree : σ.phase (c.thread h .read) = .free
  · have hthread : c.thread h .read = .host h ((c.args h).mode.runs .read) := rfl
    rw [hthread] at hfree ⊢
    simp only [rank,hfree]
    split_ifs with hw hcaught
    · exact le_refl 2
    · exact absurd ⟨hthread,hunread⟩ hcaught
    · omega
  · exact (rank_le_of_not_free hfree).trans (by omega)

theorem rank_decreases (hp : Placed c.sections σ) (hd : ∀ h, Drains (c.env h) (σ.state.host h))
    (hclear : Clear c σ.state) {u : Thread N} (hwait : WaitsFor c σ t u) :
    rank c σ u < rank c σ t := by
  cases hwait with
  | read hread =>
    cases hread with
    | host h m hm hfull =>
      have hw : writesToSwitch σ.state h = true := writesToSwitch_iff.mpr ⟨m,hm⟩
      rw [rank_writer (hp.free (no_section_of_writing hd hw)) hw]
      split_ifs with hcaught
      · have hsend := hclear h hcaught.1.symm hw hfull hcaught.2
        exact (rank_idle_reader hsend).trans_lt (by omega)
      · exact rank_reader_le.trans_lt (by omega)
    | reader r g ts hts htarget hunread =>
      have hsend : sendTarget r (σ.state.switch.reader r) ≠ none := by simp [htarget]
      rw [rank_reader (hp.free (no_section_of_sending hsend)) hsend]
      simp only [hts,reduceCtorEq,if_false]
      exact (rank_read_le hunread).trans_lt (by omega)
  | writeMutex hmutex =>
    cases hmutex with
    | reader r u g ts hnone htarget hconn hts htarget' =>
      have hsend : sendTarget r (σ.state.switch.reader r) ≠ none := by simp [htarget]
      have hsend' : sendTarget u (σ.state.switch.reader u) ≠ none := by simp [htarget']
      rw [rank_reader (hp.free (no_section_of_sending hsend)) hsend,
        rank_reader (hp.free (no_section_of_sending hsend')) hsend']
      simp [hnone,hts]
  | mutex hmutex =>
    obtain ⟨m,ht,hu⟩ := hmutex
    simp [rank,ht,hu]

/-- No thread waits, through others, for itself. -/
theorem acyclic_of_clear (hr : ThreadRun c σ hist) (hclear : Clear c σ.state) (t : Thread N) :
    ¬Relation.TransGen (WaitsFor c σ) t t :=
  acyclic_of_rank (R:=WaitsFor c σ)
    (fun _ _ hwait => rank_decreases hr.placed (drains_of_run hr.run) hclear hwait) t

end INA2A

import INA2A.Shutdown
import INA2A.Waiting

/-! With four loops no thread is ever stuck: the waits-for relation has no cycle, and
whoever is blocked in `sr_write`, somebody's peer gets to read. -/
namespace INA2A

open ByteBuffers BitWords EventMachine

variable {N : ℕ} {c : Config N} {s : System N} {hist : List (Event N)}

/-- A reader that holds a `write_mutex` is at a send. -/
def SendsWhatItWrites (s : Switch N) : Prop :=
  ∀ r, s.writing r ≠ none → sendTarget r (s.reader r) ≠ none

theorem ReaderMove.writing_of_ne {s s' : Switch N} {h r : Fin N} {i : ReaderInput}
    {ev : List (Event N)} (hm : ReaderMove s h i s' ev) (hr : r ≠ h) :
    s'.writing r = s.writing r := by
  cases hm <;> simp [hr,createSlot,finishSend]

theorem ReaderMove.sendsWhatItWrites {s s' : Switch N} {h : Fin N} {i : ReaderInput}
    {ev : List (Event N)} (hw : SendsWhatItWrites s) (hm : ReaderMove s h i s' ev) :
    SendsWhatItWrites s' := by
  intro r hr
  by_cases hrh : r = h
  · subst hrh
    have hbefore : sendTarget r (s.reader r) = none → s.writing r = none := by
      intro hnone
      by_contra hne
      exact hw r hne hnone
    cases hm with
    | enterWrite ts g _ htarget _ _ => simp [htarget]
    | finishWrite ts g ok _ _ => simp [finishSend] at hr
    | recv m hpos => exact absurd (hbefore (by simp [hpos,sendTarget])) hr
    | recvFail hpos => exact absurd (hbefore (by simp [hpos,sendTarget])) hr
    | _ => exact absurd (by assumption) hr
  · rw [hm.writing_of_ne hrh] at hr
    rw [hm.reader_of_ne hrh]
    exact hw r hr

theorem sendsWhatItWrites_of_run (hr : Run (systemMachine c) s hist) :
    SendsWhatItWrites s.switch := by
  refine hr.invariant (P := fun s _ => SendsWhatItWrites s.switch) ?_ ?_
  · rintro s rfl r hr
    exact absurd rfl hr
  · intro s hist a s' ev _ hw _ hs
    cases systemStep_move hs with
    | host _ hsw _ =>
      rw [hsw]
      exact hw
    | switch hm _ _ _ =>
      generalize s'.switch = w at hm
      cases hm with
      | accept g _ => exact hw
      | start h hpos _ =>
        intro r hr
        have hrh : r ≠ h := by
          rintro rfl
          exact hw r hr (by simp [hpos,sendTarget])
        simpa [hrh] using hw r hr
      | reader r i _ _ hmove => exact hmove.sendsWhatItWrites hw
      | main _ _ hmove => cases hmove <;> exact hw

theorem controlPush_isSome {g : Fin N} {env : HostEnv} {v : Host} {m : Mutex N} (ts : U64)
    (hm : pushMutex g v = some m) : (controlPush g env v ts).isSome = true := by
  unfold pushMutex at hm
  unfold controlPush
  cases hcontrol : v.control with
  | pulling pulls moved fin =>
    cases pulls with
    | cons i pulls =>
      dsimp only
      split <;> rfl
    | nil => cases moved <;> rfl
  | admitted tasks fin =>
    cases tasks with
    | cons i tasks => rfl
    | nil =>
      cases fin with
      | some msg => rfl
      | none => simp [hcontrol] at hm

theorem readStep_isSome {g : Fin N} {env : HostEnv} {v : Host} {m : Mutex N} (now : ℕ)
    (hm : readMutex g v = some m) : (readStep (N:=N) env v now).isSome = true := by
  unfold readMutex at hm
  split at hm
  · rename_i msg hreading
    simp [readStep,hreading]
  · cases hm

theorem computeStep_isSome {g : Fin N} {env : HostEnv} {v : Host} {m : Mutex N} (ts : U64)
    (hmode : env.mode = .fourLoops) (hm : computeMutex g env v = some m) :
    v.computing = .popping ∧ v.computeQueue.items = [] ∧ v.computeQueue.closed = false ∨
      (computeStep g env v ts).isSome = true := by
  unfold computeMutex at hm
  unfold computeStep
  cases hcomputing : v.computing with
  | top => simp [hcomputing,hmode] at hm
  | popping =>
    cases hitems : v.computeQueue.items with
    | nil => cases hclosed : v.computeQueue.closed <;> simp
    | cons t rest => simp
  | task t =>
    dsimp only
    split_ifs <;> simp
  | pushing msg => simp
  | exited => simp [hcomputing] at hm

theorem sendStep_isSome {g : Fin N} {env : HostEnv} {v : Host} {m : Mutex N}
    (hmode : env.mode = .fourLoops) (hm : sendMutex g env v = some m) :
    v.sending = .popping ∧ v.sendQueue.items = [] ∧ v.sendQueue.closed = false ∨
      (sendStep env v).isSome = true := by
  unfold sendMutex at hm
  unfold sendStep
  cases hsending : v.sending with
  | top => simp [hsending,hmode] at hm
  | popping =>
    cases hitems : v.sendQueue.items with
    | nil => cases hclosed : v.sendQueue.closed <;> simp
    | cons t rest => simp
  | writing msg => simp [hsending] at hm
  | exited => simp [hsending] at hm

theorem host_live (hmode : ∀ h, (c.args h).mode = .fourLoops) {h : Fin N} {a : HostAction}
    {m : Mutex N} (hm : hostMutex h (c.env h) (s.host h) a = some m) :
    sleeps s (c.thread h a.part) = true ∨
      (hostStep h (c.env h) (s.host h) a).isSome = true := by
  have henv : (c.env h).mode = .fourLoops := hmode h
  cases a with
  | tick now ts =>
    simp only [hostMutex,Host.mayControl,henv,if_true,tickMutex] at hm
    split_ifs at hm with hidle
    simp [hostStep,Host.mayControl,henv,tickStep,hidle]
  | push ts =>
    simp only [hostMutex,Host.mayControl,henv,if_true] at hm
    right
    simpa [hostStep,Host.mayControl,henv] using controlPush_isSome ts hm
  | compute ts =>
    simp only [hostMutex,Host.mayCompute,henv,if_true] at hm
    rcases computeStep_isSome ts henv hm with ⟨hpop,hitems,hopen⟩ | hsome
    · left
      simp [Config.thread,hmode,LoopMode.runs,HostAction.part,sleeps,hpop,hitems,hopen]
    · right
      simpa [hostStep,Host.mayCompute,henv] using hsome
  | send =>
    simp only [hostMutex,Host.maySend,henv,if_true] at hm
    rcases sendStep_isSome henv hm with ⟨hpop,hitems,hopen⟩ | hsome
    · left
      simp [Config.thread,hmode,LoopMode.runs,HostAction.part,sleeps,hpop,hitems,hopen]
    · right
      simpa [hostStep,Host.maySend,henv] using hsome
  | read now =>
    simp only [hostMutex,Host.mayRead,henv,if_true] at hm
    right
    simpa [hostStep,Host.mayRead,henv] using readStep_isSome now hm

theorem readerLocal_isSome {w : Switch N} {r : Fin N} {ts : U64} {m : Mutex N}
    (hm : readerMutex (w.reader r) = some m) : (readerLocal w r ts).isSome = true := by
  unfold readerMutex at hm
  unfold readerLocal
  split at hm <;> simp_all
  split <;> simp

theorem reader_live (hw : SendsWhatItWrites s.switch) {r : Fin N} {ts : U64} {m : Mutex N}
    (hm : readerMutex (s.switch.reader r) = some m) :
    oneSlot s (.reader r ts) = true ∧ (systemReader s r ts).isSome = true := by
  have hsend : sendTarget r (s.switch.reader r) = none := by
    unfold readerMutex at hm
    split at hm <;> simp_all [sendTarget]
  have hwriting : s.switch.writing r = none := by
    by_contra hne
    exact hw r hne hsend
  have hlocal : (readerLocal s.switch r ts).isSome = true := readerLocal_isSome hm
  constructor
  · simp [oneSlot,hwriting]
  · unfold systemReader
    split
    · rename_i hpos
      simp [hpos,readerMutex] at hm
    · rw [hwriting]
      simpa [readerStep,hwriting] using hlocal

/-- With its mutex locked, a thread finds its step possible or goes to sleep. -/
theorem section_live (hmode : ∀ h, (c.args h).mode = .fourLoops)
    (hw : SendsWhatItWrites s.switch) (u : Thread N) (m : Mutex N) (hwant : Wants c.sections s u m) :
    c.sections.sleeps s u = true ∨ ∃ a, c.sections.thread a = u ∧ c.sections.mutex s a = some m ∧
      oneSlot s a = true ∧ ((systemMachine c).step s a).isSome = true := by
  obtain ⟨a,rfl,ha⟩ := hwant
  have ha' : actionMutex c s a = some m := ha
  cases a with
  | accept g =>
    simp only [actionMutex] at ha'
    split_ifs at ha' with hacc
    exact .inr ⟨.accept g,rfl,ha,rfl,by simp [systemMachine,systemStep,switchStep,hacc]⟩
  | host h a =>
    simp only [actionMutex] at ha'
    split_ifs at ha' with hacc
    rcases host_live hmode ha' with hsleep | hstep
    · exact .inl hsleep
    · exact .inr ⟨.host h a,rfl,ha,rfl,by simpa [systemMachine,systemStep,hacc] using hstep⟩
  | reader r ts =>
    have hlive : oneSlot s (.reader r ts) = true ∧ (systemReader s r ts).isSome = true :=
      reader_live hw ha'
    obtain ⟨hok,hstep⟩ := hlive
    exact .inr ⟨.reader r ts,rfl,ha,hok,hstep⟩
  | _ => cases ha'

variable {σ : Threads N} {h g r : Fin N} {ts : U64}

/-- The thread can take a step, or waits for one that can. -/
def CanGoOn (c : Config N) (σ : Threads N) (u : Thread N) : Prop :=
  CanStep (systemMachine c) c.sections oneSlot σ u ∨
    ∃ w, WaitsFor c σ u w ∧ CanStep (systemMachine c) c.sections oneSlot σ w

theorem canStep_perform {a : Action N} (hfree : σ.phase (a.thread c) = .free)
    (hm : actionMutex c σ.state a = none) (hok : oneSlot σ.state a = true)
    (hstep : (systemStep c σ.state a).isSome = true) :
    CanStep (systemMachine c) c.sections oneSlot σ (a.thread c) := by
  refine ⟨.perform a,rfl,hok,?_⟩
  have hphase : σ.phase (c.sections.thread a) = Phase.within (c.sections.mutex σ.state a) := by
    change σ.phase (a.thread c) = Phase.within (actionMutex c σ.state a)
    rw [hfree,hm]
    rfl
  simpa [lockStep,hphase,systemMachine] using hstep

theorem section_goesOn (hmode : ∀ h, (c.args h).mode = .fourLoops) (hp : Placed c.sections σ)
    (hw : SendsWhatItWrites σ.state.switch) {u : Thread N} {m : Mutex N}
    (hwant : Wants c.sections σ.state u m) : CanGoOn c σ u := by
  rcases hp.section_progress hwant (section_live hmode hw) with hstep | ⟨w,hwait,hstep⟩
  · exact .inl hstep
  · exact .inr ⟨w,.mutex hwait,hstep⟩

theorem readThread_free (hmode : ∀ h, (c.args h).mode = .fourLoops) (hp : Placed c.sections σ)
    (hm : ∀ now, actionMutex c σ.state (.host g (.read now)) = none) :
    σ.phase (c.thread g .read) = .free := by
  apply hp.free
  rintro m ⟨b,hthread,hb⟩
  change b.thread c = _ at hthread
  change actionMutex c σ.state b = some m at hb
  cases b with
  | host g' b =>
    simp only [Action.thread,Config.thread,hmode,LoopMode.runs,Thread.host.injEq] at hthread
    obtain ⟨rfl,hpart⟩ := hthread
    cases b <;> simp [HostAction.part] at hpart
    simp [hm] at hb
  | _ => simp [actionMutex,Action.thread,Config.thread] at hb hthread

theorem reader_free (hp : Placed c.sections σ) (hm : readerMutex (σ.state.switch.reader h) = none) :
    σ.phase (.reader h) = .free := by
  apply hp.free
  rintro m ⟨b,hthread,hb⟩
  change b.thread c = _ at hthread
  change actionMutex c σ.state b = some m at hb
  cases b with
  | reader r ts =>
    simp only [Action.thread,Thread.reader.injEq] at hthread
    subst hthread
    simp [actionMutex,hm] at hb
  | _ => simp [actionMutex,Action.thread,Config.thread] at hb hthread

theorem readThread_goesOn (hmode : ∀ h, (c.args h).mode = .fourLoops) (hp : Placed c.sections σ)
    (hw : SendsWhatItWrites σ.state.switch) (hacc : σ.state.switch.hosts g = true)
    (hrun : HostRunning (σ.state.host g)) (hunread : σ.state.toHost g ≠ []) :
    CanGoOn c σ (c.thread g .read) := by
  have henv : (c.env g).mode = .fourLoops := hmode g
  have hmutex : ∀ now, actionMutex c σ.state (.host g (.read now)) =
      readMutex g (σ.state.host g) := by
    intro now
    simp [actionMutex,hacc,hostMutex,Host.mayRead,henv]
  cases hm : readMutex g (σ.state.host g) with
  | some m => exact section_goesOn hmode hp hw ⟨.host g (.read 0),rfl,(hmutex 0).trans hm⟩
  | none =>
    have hfree := readThread_free hmode hp fun now => (hmutex now).trans hm
    have hread : (readStep (N:=N) (c.env g) (σ.state.host g) 0).isSome = true →
        CanGoOn c σ (c.thread g .read) := by
      intro hstep
      exact .inl (canStep_perform (a:=.host g (.read 0)) hfree ((hmutex 0).trans hm) rfl
        (by simpa [systemStep,hacc,hostStep,Host.mayRead,henv] using hstep))
    cases hreading : (σ.state.host g).reading with
    | top => exact hread (by simp [readStep,hreading,henv])
    | got m => exact hread (by simp [readStep,hreading])
    | reading =>
      refine .inl (canStep_perform (a:=.receive g) hfree rfl rfl ?_)
      obtain ⟨frame,rest,hq⟩ := List.exists_cons_of_ne_nil hunread
      simp only [systemStep,hostReceive,hreading,hq,Host.mayRead,henv,if_true]
      split <;> rfl
    | exited => exact absurd hreading hrun.reading

theorem reader_canStep (hp : Placed c.sections σ) (hwriting : σ.state.switch.writing r = some ts)
    (htarget : sendTarget r (σ.state.switch.reader r) = some g) (hempty : σ.state.toHost g = []) :
    CanStep (systemMachine c) c.sections oneSlot σ (.reader r) := by
  have hsend : sendTarget r (σ.state.switch.reader r) ≠ none := by simp [htarget]
  refine canStep_perform (a:=.reader r ts) (hp.free (no_section_of_sending hsend))
    (readerMutex_of_sending hsend) ?_ ?_
  · simp [oneSlot,hwriting,htarget,hempty]
  · simp only [systemStep,systemReader]
    split
    · rename_i hpos
      simp [hpos,sendTarget] at hsend
    · simp only [hwriting,htarget]
      split <;> simp [readerStep,hwriting,htarget]

theorem reader_goesOn (hmode : ∀ h, (c.args h).mode = .fourLoops) (hp : Placed c.sections σ)
    (hw : SendsWhatItWrites σ.state.switch) (hacc : ∀ g, σ.state.switch.hosts g = true)
    (hrun : SwitchRunning σ.state.switch) (hunread : σ.state.toSwitch h ≠ [])
    (hopen : ∀ r g ts, σ.state.switch.writing r = some ts →
      sendTarget r (σ.state.switch.reader r) = some g → σ.state.toHost g = []) :
    CanGoOn c σ (.reader h) := by
  cases htarget : sendTarget h (σ.state.switch.reader h) with
  | some g =>
    cases hwriting : σ.state.switch.writing h with
    | some ts => exact .inl (reader_canStep hp hwriting htarget (hopen h g ts hwriting htarget))
    | none =>
      have hconn : σ.state.switch.conn g = true := by rw [hrun.conn,hacc g]
      by_cases hfree : writeMutexFree σ.state.switch g
      · have hsend : sendTarget h (σ.state.switch.reader h) ≠ none := by simp [htarget]
        refine .inl (canStep_perform (a:=.reader h 0) (hp.free (no_section_of_sending hsend))
          (readerMutex_of_sending hsend) ?_ ?_)
        · simp [oneSlot,hwriting]
        · simp only [systemStep,systemReader]
          split
          · rename_i hpos
            simp [hpos,sendTarget] at hsend
          · rw [hwriting]
            simp only [readerStep,hwriting,if_true,readerLocal]
            split <;> simp_all [sendTarget,enterSend]
      · simp only [writeMutexFree,not_forall,not_or,not_not] at hfree
        obtain ⟨u,hu,htarget'⟩ := hfree
        obtain ⟨ts,hts⟩ := Option.ne_none_iff_exists'.mp hu
        exact .inr ⟨.reader u,.writeMutex (.reader h u g ts hwriting htarget hconn hts htarget'),
          reader_canStep hp hts htarget' (hopen u g ts hts htarget')⟩
  | none =>
    have hwriting : σ.state.switch.writing h = none := by
      by_contra hne
      exact hw h hne htarget
    cases hm : readerMutex (σ.state.switch.reader h) with
    | some m => exact section_goesOn hmode hp hw ⟨.reader h 0,rfl,hm⟩
    | none =>
      have hfree := reader_free hp hm
      have hgo : (systemReader σ.state h 0).isSome = true → CanGoOn c σ (.reader h) := by
        intro hstep
        exact .inl (canStep_perform (a:=.reader h 0) hfree hm (by simp [oneSlot,hwriting]) hstep)
      have hserving := hrun.readers h
      cases hpos : σ.state.switch.reader h with
      | notStarted =>
        exact .inl (canStep_perform (a:=.start h) hfree rfl rfl
          (by simp [systemStep,switchStep,hpos,hacc]))
      | top =>
        apply hgo
        simp only [systemReader,hpos,hwriting]
        simp [readerStep,hwriting,readerLocal,hpos]
        split <;> rfl
      | reading =>
        apply hgo
        obtain ⟨frame,rest,hq⟩ := List.exists_cons_of_ne_nil hunread
        simp only [systemReader,hpos,hq]
        split <;> simp [readerStep,hpos]
      | got m =>
        apply hgo
        simp [systemReader,hpos,hwriting,readerStep,readerLocal]
      | looking m ids targets => cases ids <;> simp [hpos,readerMutex] at hm
      | clearing m g rest => simp [hpos,readerMutex] at hm
      | dispatching m targets => cases targets <;> simp [hpos,sendTarget] at htarget
      | replying m => simp [hpos,sendTarget] at htarget
      | _ => simp [hpos,ReaderPos.serving] at hserving

/-- What may be relied on about waiting threads. -/
structure NoSendDeadlock (c : Config N) (σ : Threads N) : Prop where
  /-- A mutex has one holder. -/
  holder : Exclusive σ
  acyclic : ∀ t, ¬Relation.TransGen (WaitsFor c σ) t t
  /-- As long as somebody is blocked in `sr_write`, the peer of somebody blocked so goes on. -/
  peer : ∀ t u, AwaitsRead c σ.state t u →
    ∃ t' u', AwaitsRead c σ.state t' u' ∧ CanGoOn c σ u'

theorem four_loops_no_deadlock (c : Config N) (hmode : ∀ h, (c.args h).mode = .fourLoops)
    {σ : Threads N} {hist : List (Event N)} (hr : ThreadRun c σ hist)
    (hacc : ∀ g, σ.state.switch.hosts g = true) (hb : .broadcast ∉ hist) :
    NoSendDeadlock c σ := by
  have hp := hr.placed
  have hw := sendsWhatItWrites_of_run hr.run
  refine ⟨mutual_exclusion hr,acyclic_of_clear hr ?_,?_⟩
  · intro h hsame
    simp [Config.thread,hmode,LoopMode.runs] at hsame
  · intro t u hblocked
    have hN : 0 < N := by
      cases hblocked with
      | host h _ _ _ => exact h.pos
      | reader r _ _ _ _ _ => exact r.pos
    obtain ⟨p,hf,-,-,hbroadcast⟩ := exists_marked hN hr.run
    have hmarked : ¬p.allMarked := fun hall => hb (hbroadcast.mpr hall)
    by_cases hreader : ∃ r g ts, σ.state.switch.writing r = some ts ∧
        sendTarget r (σ.state.switch.reader r) = some g ∧ σ.state.toHost g ≠ []
    · obtain ⟨r,g,ts,hwriting,htarget,hunread⟩ := hreader
      exact ⟨_,_,.reader r g ts hwriting htarget hunread,
        readThread_goesOn hmode hp hw (hacc g) (hf.hostRunning hmarked g) hunread⟩
    · push Not at hreader
      cases hblocked with
      | host h m hm hunread =>
        exact ⟨_,_,.host h m hm hunread,
          reader_goesOn hmode hp hw hacc (hf.switchRunning hmarked) hunread hreader⟩
      | reader r g ts hwriting htarget hunread =>
        exact absurd (hreader r g ts hwriting htarget) hunread

/-- Three tokens are dispatched one after the other; the third DISPATCH_TOKEN finds the second
unread and the first with the reader. -/
def soloBacklog : List (Action 1) :=
  [.accept 0,.start 0] ++ soloPush 4 ++ soloCompute ++ soloCompute ++ soloCompute ++ soloSend ++
  soloReader 2 ++ soloSend ++ [.host 0 .send,.host 0 .send]

theorem four_loops_no_deadlock_sample : ∃ (σ : Threads 1) (hist : List (Event 1)),
    ThreadRun (soloConfig .fourLoops 3) σ hist ∧
    AwaitsRead (soloConfig .fourLoops 3) σ.state (.host 0 .send) (.reader 0) ∧
    NoSendDeadlock (soloConfig .fourLoops 3) σ := by
  obtain ⟨s,hist,hrun,hp⟩ := exists_run_of_replay (systemMachine (soloConfig .fourLoops 3))
    oneSlot (System.initial _) soloBacklog
    (fun s hist => writesToSwitch s 0 && !(s.toSwitch 0).isEmpty && s.switch.hosts 0 &&
      !hist.any Event.isBroadcast) rfl (by decide +kernel)
  simp only [Bool.and_eq_true,Bool.not_eq_true',List.isEmpty_eq_false_iff,List.any_eq_false] at hp
  obtain ⟨⟨⟨hwrites,hfull⟩,hacc⟩,hb⟩ := hp
  obtain ⟨m,hm⟩ := writesToSwitch_iff.mp hwrites
  refine ⟨⟨s,fun _ => .free⟩,hist,hrun.locked,.host 0 m hm hfull,
    four_loops_no_deadlock _ (fun _ => rfl) hrun.locked ?_ fun hmem => hb _ hmem rfl⟩
  intro g
  rw [Subsingleton.elim g 0]
  exact hacc

end INA2A

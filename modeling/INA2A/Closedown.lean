import INA2A.Rest

/-! The end of a run.  The reader that hears the last FINISH tells one host after the other
and then closes their connections, the other readers leave their loops, `main` joins them;
a host that has been told leaves its loops. -/
namespace INA2A

open ByteBuffers BitWords EventMachine Inventory

variable {N : ℕ} {c : Config N} {s s' : System N} {p : Progress (Fin N) U64} {g h r : Fin N}
  {v v' : Host} {w w' : Switch N} {env : HostEnv} {ev : List (Event N)} {untold : List (Fin N)}

/-- The host has not been told to stop, and its loop that reads goes on. -/
structure Listening (v : Host) : Prop where
  running : v.running = true
  reading : v.reading ≠ .exited

structure Stopped (v : Host) : Prop where
  running : v.running = false
  sendClosed : v.sendQueue.closed = true
  computeClosed : v.computeQueue.closed = true
  reading : v.reading = .exited

/-- What `shutdown_runtime` changes. -/
structure SameLife (v v' : Host) : Prop where
  running : v'.running = v.running
  sendClosed : v'.sendQueue.closed = v.sendQueue.closed
  computeClosed : v'.computeQueue.closed = v.computeQueue.closed

theorem push_closed {α : Type} (q : BlockingQueue α) (x : α) : (q.push x).closed = q.closed := by
  unfold BlockingQueue.push
  split_ifs <;> rfl

theorem hostStep_sameLife {a : HostAction} (ha : a.part ≠ .read)
    (hs : hostStep g env v a = some (v',ev)) : SameLife v v' := by
  cases hostStep_move hs with
  | tick _ hstep =>
    have htick : ∀ now ts, SameLife v (controlTick env v now ts) := by
      intro now ts
      unfold controlTick
      split_ifs <;> constructor <;> rfl
    unfold tickStep at hstep
    split_ifs at hstep
    split at hstep <;> obtain rfl := Option.some.inj hstep
    · exact ⟨(htick _ _).running,(htick _ _).sendClosed,(htick _ _).computeClosed⟩
    · constructor <;> rfl
    · exact htick _ _
  | push _ hstep =>
    unfold controlPush at hstep
    split at hstep
    · dsimp only at hstep
      split at hstep <;> cases hstep <;> constructor <;> simp [push_closed]
    all_goals cases hstep
    all_goals constructor <;> simp [tryAdmitRawTokens,push_closed]
  | compute _ hstep =>
    unfold computeStep at hstep
    split at hstep
    · split at hstep
      · split at hstep <;> cases hstep <;> constructor <;> rfl
      · cases hstep
        constructor <;> rfl
    · split at hstep
      · split_ifs at hstep
        cases hstep
        constructor <;> rfl
      · cases hstep
        constructor <;> rfl
    · split_ifs at hstep <;> cases hstep
      · unfold processComputeTask
        split
        · split <;> constructor <;> rfl
        · constructor <;> rfl
      · constructor <;> rfl
    · cases hstep
      constructor <;> simp [leaveCompute,push_closed]
    · cases hstep
  | send _ hstep =>
    unfold sendStep at hstep
    split at hstep
    · split at hstep
      · cases hstep
        constructor <;> rfl
      · split at hstep
        · split_ifs at hstep <;> cases hstep <;> constructor <;> rfl
        · cases hstep
          constructor <;> rfl
        · cases hstep
    · split at hstep
      · split_ifs at hstep
        cases hstep
        constructor <;> rfl
      · cases hstep
        constructor <;> rfl
    · cases hstep
  | read => exact absurd rfl ha

theorem Listening.step {a : HostAction} (hv : Listening v) (ha : a.part ≠ .read)
    (hs : hostStep g env v a = some (v',ev)) : Listening v' := by
  have hlife := hostStep_sameLife ha hs
  have hsame := (hostStep_keeps hs).reading ha
  exact ⟨by rw [hlife.running]; exact hv.running,by rw [hsame]; exact hv.reading⟩

theorem Stopped.step {a : HostAction} (hv : Stopped v) (hs : hostStep g env v a = some (v',ev)) :
    Stopped v' := by
  by_cases ha : a.part = .read
  · cases hostStep_move hs with
    | read _ hstep =>
      simp only [readStep,hv.reading] at hstep
      cases hstep
    | _ => cases ha
  · have hlife := hostStep_sameLife ha hs
    have hsame := (hostStep_keeps hs).reading ha
    exact ⟨by rw [hlife.running]; exact hv.running,by rw [hlife.sendClosed]; exact hv.sendClosed,
      by rw [hlife.computeClosed]; exact hv.computeClosed,by rw [hsame]; exact hv.reading⟩

/-- The switch has still to tell the host. -/
structure Untold (s : System N) (g : Fin N) : Prop where
  listening : Listening (s.host g)
  toHost : s.toHost g = []
  reading : ∀ m, (s.host g).reading ≠ .got m

/-- FINISH is on its way to the host, or has stopped it. -/
inductive Told (s : System N) (g : Fin N) : Prop
  | sent (m) : Listening (s.host g) → s.toHost g = [m] → (∀ m, (s.host g).reading ≠ .got m) → Told s g
  | got (m) : Listening (s.host g) → s.toHost g = [] → (s.host g).reading = .got m → Told s g
  | stopped : Stopped (s.host g) → s.toHost g = [] → Told s g

theorem readStep_listening (hmode : env.mode = .fourLoops) (hv : Listening v) {now : ℕ}
    (hgot : ∀ m, v.reading = .got m → m.header.kind = some .finish)
    (hs : readStep (N:=N) env v now = some (v',ev)) :
    (Listening v' ∧ (∀ m, v'.reading ≠ .got m) ∧ ∀ m, v.reading ≠ .got m) ∨
      Stopped v' ∧ ∃ m, v.reading = .got m := by
  unfold readStep at hs
  split at hs
  · rename_i hpos
    simp only [hmode,if_true,hv.running] at hs
    cases hs
    exact .inl ⟨⟨rfl,by simp⟩,by simp,by simp [hpos]⟩
  · simp [hmode] at hs
  · rename_i m hpos
    simp only [handleIncomingMessage,hgot m hpos] at hs
    cases hs
    refine .inr ⟨?_,m,hpos⟩
    constructor <;> simp [exitRead,shutdownRuntime,BlockingQueue.close]
  · cases hs

/-- A reader outside its handlers. -/
def ReaderPos.idle : ReaderPos N → Bool
  | .notStarted | .top | .reading | .exited _ => true
  | _ => false

theorem ReaderPos.sendTarget_of_idle {q : ReaderPos N} (hq : q.idle = true) :
    sendTarget h q = none := by
  cases q <;> simp [ReaderPos.idle,sendTarget] at hq ⊢

/-- What the reader at a position of the shutdown has done and has still to do; the list names the
hosts that it has still to tell. -/
def Duty (w : Switch N) (untold : List (Fin N)) : ReaderPos N → Prop
  | .broadcasting _ rest =>
    rest = untold ∧ untold.Nodup ∧ (∀ g, w.conn g = true) ∧ ∀ g, w.opened g = true
  | .closing todo =>
    untold = [] ∧ w.running = false ∧ (∀ g, w.conn g = true → g ∈ todo) ∧
      ∀ g, w.opened g = true → w.conn g = true
  | .nulling g todo =>
    untold = [] ∧ w.running = false ∧ (∀ g', w.conn g' = true → g' = g ∨ g' ∈ todo) ∧
      ∀ g', w.opened g' = true → w.conn g' = true ∧ g' ≠ g
  | _ => False

/-- How far the switch is with its closing down: one reader is at it, or it is done. -/
inductive Closedown (w : Switch N) : List (Fin N) → Prop
  | busy (r : Fin N) (untold : List (Fin N)) : Duty w untold (w.reader r) →
      (∀ q, q ≠ r → (w.reader q).idle = true) → w.main = .joining → Closedown w untold
  | closed : (∀ q, (w.reader q).idle = true) → w.running = false → (∀ g, w.conn g = false) →
      (∀ g, w.opened g = false) → Closedown w []

theorem Duty.not_idle {q : ReaderPos N} (hd : Duty w untold q) : q.idle = false := by
  cases q <;> first | rfl | exact hd.elim

theorem Duty.congr {q : ReaderPos N} (hd : Duty w untold q) (hconn : w'.conn = w.conn)
    (hopened : w'.opened = w.opened) (hrunning : w'.running = w.running) : Duty w' untold q := by
  cases q <;> simp only [Duty,hconn,hopened,hrunning] at hd ⊢ <;> exact hd

theorem Closedown.of_not_idle (hc : Closedown w untold) (hq : (w.reader h).idle = false) :
    Duty w untold (w.reader h) ∧ (∀ q, q ≠ h → (w.reader q).idle = true) ∧ w.main = .joining := by
  cases hc with
  | busy r untold hduty hall hmain =>
    have hr : h = r := by
      by_contra hne
      simp [hall h hne] at hq
    subst hr
    exact ⟨hduty,hall,hmain⟩
  | closed hall => simp [hall h] at hq

theorem Closedown.of_target (hc : Closedown w untold) (htarget : sendTarget h (w.reader h) = some g) :
    ∃ rid rest, w.reader h = .broadcasting rid (g::rest) := by
  have hbusy : (w.reader h).idle = false := by
    by_contra hidle
    rw [ReaderPos.sendTarget_of_idle (by simpa using hidle)] at htarget
    cases htarget
  obtain ⟨hduty,-,-⟩ := hc.of_not_idle hbusy
  cases hq : w.reader h with
  | broadcasting rid rest =>
    cases rest with
    | nil => simp [hq,sendTarget] at htarget
    | cons g' rest =>
      simp only [hq,sendTarget,Option.some.injEq] at htarget
      exact ⟨rid,rest,by rw [htarget]⟩
  | _ => simp [hq,sendTarget,Duty] at htarget hduty

theorem Closedown.idleMove (hc : Closedown w untold) {q : ReaderPos N}
    (hold : (w.reader h).idle = true) (hnew : q.idle = true) :
    Closedown (w.setReader h q) untold := by
  cases hc with
  | busy r untold hduty hall hmain =>
    have hr : r ≠ h := by
      rintro rfl
      simp [hduty.not_idle] at hold
    refine .busy r untold ?_ (fun q' hq' => ?_) hmain
    · rw [setReader_reader,if_neg hr]
      exact hduty.congr rfl rfl rfl
    rw [setReader_reader]
    split_ifs
    · exact hnew
    · exact hall q' hq'
  | closed hall hrun hconn hopened =>
    refine .closed (fun q' => ?_) hrun hconn hopened
    rw [setReader_reader]
    split_ifs
    · exact hnew
    · exact hall q'

theorem Closedown.goMove {ts : U64} (hc : Closedown w untold) (hacc : ∀ g, w.hosts g = true)
    (hm : ReaderMove w h (.go ts) w' ev) : Closedown w' untold := by
  have hhandler : ∀ {q : ReaderPos N}, w.reader h = q → q.idle = false →
      (∀ untold, ¬Duty w untold q) → Closedown w' untold := by
    intro q hq hbusy hnot
    subst hq
    exact absurd (hc.of_not_idle hbusy).1 (hnot untold)
  cases hm with
  | enterRead _ _ hq => exact hc.idleMove (by simp [hq,ReaderPos.idle]) rfl
  | leave _ _ hq => exact hc.idleMove (by simp [hq,ReaderPos.idle]) rfl
  | enterWrite _ g =>
    cases hc with
    | busy r untold hduty hall hmain => exact .busy r untold hduty hall hmain
    | closed hall hrun hconn hopened => exact .closed hall hrun hconn hopened
  | sendNull _ g _ htarget hg =>
    obtain ⟨rid,rest,hq⟩ := hc.of_target htarget
    obtain ⟨hduty,-,-⟩ := hc.of_not_idle (h:=h) (by simp [hq,ReaderPos.idle])
    rw [hq] at hduty
    simp [hduty.2.2.1 g] at hg
  | stopRunning _ rid _ hq =>
    obtain ⟨hduty,hall,hmain⟩ := hc.of_not_idle (h:=h) (by simp [hq,ReaderPos.idle])
    rw [hq] at hduty
    obtain ⟨rfl,-,hconn,hopened⟩ := hduty
    refine .busy h [] ?_ (fun q hq' => by simpa [hq'] using hall q hq') hmain
    simp [Duty,snapshotHosts,hacc,hconn]
  | close _ g rest _ hq hg =>
    obtain ⟨hduty,hall,hmain⟩ := hc.of_not_idle (h:=h) (by simp [hq,ReaderPos.idle])
    rw [hq] at hduty
    obtain ⟨rfl,hrun,hconn,hopened⟩ := hduty
    refine .busy h [] ?_ (fun q hq' => by simpa [hq'] using hall q hq') hmain
    simp only [setReader_reader,if_true]
    refine ⟨rfl,hrun,fun g' hg' => by simpa using hconn g' hg',?_⟩
    intro g' hg'
    by_cases hgg : g' = g
    · simp [hgg] at hg'
    · exact ⟨hopened g' (by simpa [hgg] using hg'),hgg⟩
  | skipClosed _ g rest _ hq hg =>
    obtain ⟨hduty,hall,hmain⟩ := hc.of_not_idle (h:=h) (by simp [hq,ReaderPos.idle])
    rw [hq] at hduty
    obtain ⟨rfl,hrun,hconn,hopened⟩ := hduty
    refine .busy h [] ?_ (fun q hq' => by simpa [hq'] using hall q hq') hmain
    simp only [setReader_reader,if_true]
    refine ⟨rfl,hrun,?_,hopened⟩
    intro g' hg'
    refine (List.mem_cons.mp (hconn g' hg')).resolve_left ?_
    rintro rfl
    simp [hg] at hg'
  | null _ g rest _ hq =>
    obtain ⟨hduty,hall,hmain⟩ := hc.of_not_idle (h:=h) (by simp [hq,ReaderPos.idle])
    rw [hq] at hduty
    obtain ⟨rfl,hrun,hconn,hopened⟩ := hduty
    refine .busy h [] ?_ (fun q hq' => by simpa [hq'] using hall q hq') hmain
    simp only [setReader_reader,if_true]
    refine ⟨rfl,hrun,?_,?_⟩
    · intro g' hg'
      by_cases hgg : g' = g
      · simp [hgg] at hg'
      · exact (hconn g' (by simpa [hgg] using hg')).resolve_left hgg
    · intro g' hg'
      obtain ⟨hopen,hgg⟩ := hopened g' hg'
      simpa [hgg] using hopen
  | endClosing _ _ hq =>
    obtain ⟨hduty,hall,-⟩ := hc.of_not_idle (h:=h) (by simp [hq,ReaderPos.idle])
    rw [hq] at hduty
    obtain ⟨rfl,hrun,hconn,hopened⟩ := hduty
    have hgone : ∀ g, w.conn g = false := by
      intro g
      by_contra hg
      simpa using hconn g (by simpa using hg)
    refine .closed (fun q => ?_) hrun hgone fun g => ?_
    · rw [setReader_reader]
      split_ifs with hq'
      · rfl
      · exact hall q hq'
    · by_contra hg
      have := hopened g (by simpa using hg)
      simp [hgone g] at this
  | _ => exact hhandler (by assumption) (by rfl) (by simp [Duty])

/-- `main` does nothing before every reader has left its loop, and finds nothing to close then. -/
theorem Closedown.mainMove (hc : Closedown w untold) (hm : MainMove w w' ev) :
    Closedown w' untold := by
  cases hc with
  | busy r untold hduty hall hmain =>
    cases hm with
    | joined _ hexited =>
      have hr := hexited r
      cases hq : w.reader r <;> simp [hq,ReaderPos.isExited,Duty] at hr hduty
    | close _ _ hpos => simp [hpos] at hmain
    | skipClosed _ _ hpos => simp [hpos] at hmain
    | null _ _ hpos => simp [hpos] at hmain
    | finish hpos => simp [hpos] at hmain
  | closed hall hrun hconn hopened =>
    cases hm with
    | joined => exact .closed hall rfl hconn hopened
    | close g _ _ hg => simp [hconn g] at hg
    | skipClosed => exact .closed hall hrun hconn hopened
    | null g =>
      refine .closed hall hrun (fun g' => ?_) hopened
      by_cases hg : g' = g <;> simp [hg,hconn]
    | finish => exact .closed hall hrun hconn hopened

/-- The end of a run, once the switch has heard the last FINISH. -/
structure Ending (s : System N) (rest : List (Fin N)) : Prop where
  switch : Closedown s.switch rest
  accepted : ∀ g, s.switch.hosts g = true
  untold : ∀ g ∈ rest, Untold s g
  told : ∀ g, g ∉ rest → Told s g

theorem Ending.hosts (he : Ending s untold) (hswitch : s'.switch = s.switch)
    (hother : ∀ g, g ≠ h → s'.host g = s.host g ∧ s'.toHost g = s.toHost g)
    (huntold : h ∈ untold → Untold s' h) (htold : h ∉ untold → Told s' h) : Ending s' untold := by
  refine ⟨by rw [hswitch]; exact he.switch,by rw [hswitch]; exact he.accepted,?_,?_⟩
  · intro g hg
    by_cases hgh : g = h
    · subst hgh
      exact huntold hg
    · obtain ⟨hhost,htoHost⟩ := hother g hgh
      have hu := he.untold g hg
      exact ⟨by rw [hhost]; exact hu.listening,by rw [htoHost]; exact hu.toHost,
        by rw [hhost]; exact hu.reading⟩
  · intro g hg
    by_cases hgh : g = h
    · subst hgh
      exact htold hg
    · obtain ⟨hhost,htoHost⟩ := hother g hgh
      cases he.told g hg with
      | sent m hl hq hr =>
        exact .sent m (by rw [hhost]; exact hl) (by rw [htoHost]; exact hq) (by rw [hhost]; exact hr)
      | got m hl hq hr =>
        exact .got m (by rw [hhost]; exact hl) (by rw [htoHost]; exact hq) (by rw [hhost]; exact hr)
      | stopped hst hq => exact .stopped (by rw [hhost]; exact hst) (by rw [htoHost]; exact hq)

theorem Ending.hostStep (he : Ending s untold) (hf : Follows c s p) (hp : Orderly c.plan p)
    (hall : p.allMarked) (hmode : (c.args h).mode = .fourLoops) {a : HostAction}
    (hs : hostStep h (c.env h) (s.host h) a = some (v,ev)) : Ending (s.setHost h v) untold := by
  have hgot : ∀ m, (s.host h).reading = .got m → m.header.kind = some .finish := by
    intro m hm
    have hx : Item.down m ∈ items s h :=
      mem_items_of_host (by simp [Host.items,Reading.items,hm])
    obtain ⟨rid,ts,heq⟩ := hf.item_of_allMarked hp hall hx
    cases heq
    rfl
  have hread : a.part = .read → Listening (s.host h) →
      (Listening v ∧ (∀ m, v.reading ≠ .got m) ∧ ∀ m, (s.host h).reading ≠ .got m) ∨
        Stopped v ∧ ∃ m, (s.host h).reading = .got m := by
    intro ha hl
    cases hostStep_move hs with
    | read _ hstep => exact readStep_listening hmode hl hgot hstep
    | _ => cases ha
  have hkeep : a.part ≠ .read → v.reading = (s.host h).reading := (hostStep_keeps hs).reading
  refine he.hosts (h:=h) rfl (fun g hg => by simp [System.setHost,hg]) ?_ ?_
  · intro hmem
    obtain ⟨hl,hq,hr⟩ := he.untold h hmem
    by_cases ha : a.part = .read
    · rcases hread ha hl with ⟨hl',hr',-⟩ | ⟨-,m,hm⟩
      · exact ⟨by simpa [System.setHost] using hl',hq,by simpa [System.setHost] using hr'⟩
      · exact absurd hm (hr m)
    · exact ⟨by simpa [System.setHost] using hl.step ha hs,hq,
        by simpa [System.setHost,hkeep ha] using hr⟩
  · intro hmem
    cases he.told h hmem with
    | sent m hl hq hr =>
      by_cases ha : a.part = .read
      · rcases hread ha hl with ⟨hl',hr',-⟩ | ⟨-,m,hm⟩
        · exact .sent m (by simpa [System.setHost] using hl') hq (by simpa [System.setHost] using hr')
        · exact absurd hm (hr m)
      · exact .sent m (by simpa [System.setHost] using hl.step ha hs) hq
          (by simpa [System.setHost,hkeep ha] using hr)
    | got m hl hq hr =>
      by_cases ha : a.part = .read
      · rcases hread ha hl with ⟨-,-,hr'⟩ | ⟨hst,-⟩
        · exact absurd hr (hr' m)
        · exact .stopped (by simpa [System.setHost] using hst) hq
      · exact .got m (by simpa [System.setHost] using hl.step ha hs) hq
          (by simpa [System.setHost,hkeep ha] using hr)
    | stopped hst hq => exact .stopped (by simpa [System.setHost] using hst.step hs) hq

theorem Ending.receive (he : Ending s untold) (hf : Follows c s p)
    (hs : hostReceive c s h = some (s',ev)) : Ending s' untold := by
  obtain ⟨frame,rest,hread,hq,-,rfl⟩ := hf.hostReceive_move hs
  refine he.hosts (h:=h) rfl (fun g hg => by simp [System.setHost,hg]) ?_ ?_
  · intro hmem
    have hempty := (he.untold h hmem).toHost
    simp [hq] at hempty
  · intro hmem
    cases he.told h hmem with
    | sent m hl hm _ =>
      rw [hq,List.cons.injEq] at hm
      obtain ⟨rfl,rfl⟩ := hm
      exact .got frame ⟨by simpa [System.setHost] using hl.running,by simp [System.setHost]⟩
        (by simp [System.setHost]) (by simp [System.setHost])
    | got _ _ hempty => simp [hq] at hempty
    | stopped _ hempty => simp [hq] at hempty

theorem Ending.switchStep (he : Ending s untold) (hc : Closedown w untold)
    (hacc : w.hosts = s.switch.hosts) : Ending { s with switch := w } untold := by
  refine ⟨hc,fun g => by rw [hacc]; exact he.accepted g,?_,?_⟩
  · intro g hg
    obtain ⟨hl,hq,hr⟩ := he.untold g hg
    exact ⟨hl,hq,hr⟩
  · intro g hg
    cases he.told g hg with
    | sent m hl hq hr => exact .sent m hl hq hr
    | got m hl hq hr => exact .got m hl hq hr
    | stopped hst hq => exact .stopped hst hq

theorem Ending.readerStep (he : Ending s untold) (hf : Follows c s p) (hp : Orderly c.plan p)
    (hall : p.allMarked) {ts : U64} (hs : systemReader s h ts = some (s',ev)) :
    ∃ untold', Ending s' untold' := by
  cases hf.systemReader_move hs with
  | received hk hq =>
    rename_i frame rest
    have hx : Item.wire frame ∈ items s h := by
      simp only [items,Multiset.mem_add,hq]
      exact Or.inl (Or.inl (Or.inr (by simp)))
    exact absurd hall (hf.notMarked hp hx (by simp))
  | lost hk =>
    exact ⟨untold,he.switchStep (he.switch.idleMove (by simp [hk,ReaderPos.idle]) rfl) rfl⟩
  | go hr =>
    exact ⟨untold,he.switchStep (he.switch.goMove he.accepted (readerStep_move hr))
      (readerStep_move hr).hosts⟩
  | sent hwriting htarget =>
    rename_i stamp g
    obtain ⟨rid,rest,hq⟩ := he.switch.of_target htarget
    obtain ⟨hduty,hidle,hmain⟩ := he.switch.of_not_idle (h:=h) (by simp [hq,ReaderPos.idle])
    rw [hq] at hduty
    obtain ⟨rfl,hnodup,hconn,hopened⟩ := hduty
    obtain ⟨hg,hnodup'⟩ := List.nodup_cons.mp hnodup
    refine ⟨rest,?_,he.accepted,?_,?_⟩
    · refine .busy h rest ?_ (fun q hq' => by simpa [finishSend,hq'] using hidle q hq') hmain
      simp [finishSend,hq,afterSend,Duty,hnodup',hconn,hopened]
    · intro g' hg'
      obtain ⟨hl,hempty,hr⟩ := he.untold g' (List.mem_cons_of_mem _ hg')
      have hne : g' ≠ g := by
        rintro rfl
        exact hg hg'
      exact ⟨hl,by simpa [hne] using hempty,hr⟩
    · intro g' hg'
      by_cases hgg : g' = g
      · subst hgg
        obtain ⟨hl,hempty,hr⟩ := he.untold g' (by simp)
        exact .sent (sendMsg stamp (s.switch.reader h)) hl (by simp [hempty]) hr
      · cases he.told g' (by simp [hgg,hg']) with
        | sent m hl hq hr => exact .sent m hl (by simpa [hgg] using hq) hr
        | got m hl hq hr => exact .got m hl (by simpa [hgg] using hq) hr
        | stopped hst hq => exact .stopped hst (by simpa [hgg] using hq)

theorem Ending.step (he : Ending s untold) (hf : Follows c s p) (hp : Orderly c.plan p)
    (hall : p.allMarked) (hmode : ∀ h, (c.args h).mode = .fourLoops) {a : Action N}
    (hs : systemStep c s a = some (s',ev)) : ∃ untold', Ending s' untold' := by
  cases a with
  | accept g => simp [systemStep,INA2A.switchStep,he.accepted g] at hs
  | start h =>
    obtain ⟨⟨w,ev'⟩,hr,heq⟩ := Option.map_eq_some_iff.mp hs
    obtain ⟨rfl,-⟩ := Prod.mk.inj heq
    cases switchStep_move hr with
    | start _ hk => exact ⟨untold,he.switchStep (he.switch.idleMove (by simp [hk,ReaderPos.idle]) rfl) rfl⟩
  | host h a =>
    obtain ⟨v,hr,rfl⟩ := systemStep_host hs
    exact ⟨untold,he.hostStep hf hp hall (hmode h) hr⟩
  | write h =>
    obtain ⟨m,-,hx,-⟩ := hf.hostWrite_move hs
    exact absurd hall (hf.notMarked hp hx (by simp))
  | receive h => exact ⟨untold,he.receive hf hs⟩
  | reader h ts => exact he.readerStep hf hp hall hs
  | main =>
    obtain ⟨⟨w,ev'⟩,hr,heq⟩ := Option.map_eq_some_iff.mp hs
    obtain ⟨rfl,-⟩ := Prod.mk.inj heq
    cases switchStep_move hr with
    | main _ _ hm =>
      refine ⟨untold,he.switchStep (he.switch.mainMove hm) ?_⟩
      cases hm <;> rfl

theorem ReaderMove.lastFinish {i : ReaderInput} (hm : ReaderMove w h i w' ev)
    (hsome : ∃ g, g ∉ w.finishedHosts) (hall : ∀ g, g ∈ w'.finishedHosts) :
    ∃ rid, w'.reader h = .broadcasting rid (snapshotHosts w) ∧ w'.conn = w.conn ∧
      w'.opened = w.opened := by
  obtain ⟨g,hg⟩ := hsome
  cases hm with
  | finishLast _ m => exact ⟨m.header.runId,by simp,rfl,rfl⟩
  | finishMarked _ m _ _ _ hcard =>
    have hfull : insert h w.finishedHosts = Finset.univ := Finset.eq_univ_iff_forall.mpr hall
    rw [hfull,Finset.card_univ,Fintype.card_fin] at hcard
    exact absurd hcard (lt_irrefl N)
  | _ => exact absurd (hall g) hg

theorem systemStep_marks {a : Action N} (hs : systemStep c s a = some (s',ev))
    (hne : s'.switch.finishedHosts ≠ s.switch.finishedHosts) : ∃ h ts, a = .reader h ts := by
  have hother : ∀ {b : SwitchAction N}, (∀ h i, b ≠ .reader h i) →
      (INA2A.switchStep s.switch b).map (fun r => ({ s with switch := r.1 },r.2)) ≠
        some (s',ev) := by
    intro b hb hstep
    obtain ⟨⟨w,ev'⟩,hr,heq⟩ := Option.map_eq_some_iff.mp hstep
    obtain ⟨rfl,-⟩ := Prod.mk.inj heq
    cases switchStep_move hr with
    | accept => exact hne rfl
    | start => exact hne rfl
    | reader h i => exact hb h i rfl
    | main _ _ hm => exact hne (by cases hm <;> rfl)
  cases a with
  | accept g => exact absurd hs (hother (by simp))
  | start h => exact absurd hs (hother (by simp))
  | main => exact absurd hs (hother (by simp))
  | reader h ts => exact ⟨h,ts,rfl⟩
  | host h a =>
    obtain ⟨v,-,rfl⟩ := systemStep_host hs
    exact absurd rfl hne
  | write h =>
    cases hostWrite_move hs with
    | host _ hsame => exact absurd (by rw [hsame]) hne
    | @switch b _ _ _ hthread => cases b <;> cases hthread
  | receive h =>
    cases hostReceive_move hs with
    | host _ hsame => exact absurd (by rw [hsame]) hne
    | @switch b _ _ _ hthread => cases b <;> cases hthread

theorem Follows.ending {p' : Progress (Fin N) U64} (hf : Follows c s p) (hf' : Follows c s' p')
    (hp' : Orderly c.plan p') (hne : ¬p.allMarked) (hall' : p'.allMarked) {a : Action N}
    (hs : systemStep c s a = some (s',ev)) : ∃ untold, Ending s' untold := by
  have hsome : ∃ g, g ∉ s.switch.finishedHosts := by
    by_contra hnone
    push Not at hnone
    exact hne fun g => (hf.finished g).mp (hnone g)
  have hfull : ∀ g, g ∈ s'.switch.finishedHosts := fun g => (hf'.finished g).mpr (hall' g)
  have hchange : s'.switch.finishedHosts ≠ s.switch.finishedHosts := by
    intro hsame
    obtain ⟨g,hg⟩ := hsome
    exact hg (hsame ▸ hfull g)
  obtain ⟨h,ts,rfl⟩ := systemStep_marks hs hchange
  cases hf.systemReader_move hs with
  | received => exact absurd rfl hchange
  | lost => exact absurd rfl hchange
  | sent => exact absurd rfl hchange
  | @go _ w _ hr =>
    have hm := readerStep_move hr
    obtain ⟨rid,hpos,hconn,hopened⟩ := hm.lastFinish hsome hfull
    have hsw := hf.switchRunning hne
    have hacc : ∀ g, s.switch.hosts g = true := by
      apply hf.registered.reader h
      intro hstart
      cases hm <;> simp_all [sendTarget]
    -- whatever is under way was so before, when no FINISH of the switch was
    have hnone : ∀ (g : Fin N) (m : Msg),
        (Item.down m : Item N) ∉ (s.host g).items + bag .down (s.toHost g) := by
      intro g m hm
      have hbefore : Item.down m ∈ items s g := by
        simp only [items,Multiset.mem_add] at hm ⊢
        tauto
      have hafter : Item.down m ∈ items { s with switch := w } g := by
        simp only [items,Multiset.mem_add] at hm ⊢
        tauto
      obtain ⟨rid',ts',heq⟩ := hf'.item_of_allMarked hp' hall' hafter
      exact hne (hf.untagged g _ hbefore (by rw [heq]; rfl)).1
    have hidle : ∀ q, q ≠ h → (w.reader q).idle = true := by
      intro q hq
      have hserving := hsw.readers q
      have hempty : (s.switch.reader q).items = 0 := by
        apply Multiset.eq_zero_of_forall_notMem
        intro x hx
        have hafter : x ∈ items { s with switch := w } q := by
          apply mem_items_of_reader
          rwa [hm.reader_of_ne hq]
        obtain ⟨rid',ts',rfl⟩ := hf'.item_of_allMarked hp' hall' hafter
        cases hq' : s.switch.reader q <;> simp [hq',ReaderPos.items] at hx
      rw [hm.reader_of_ne hq]
      cases hq' : s.switch.reader q <;>
        simp [hq',ReaderPos.items,ReaderPos.serving,ReaderPos.idle] at hempty hserving ⊢
    refine ⟨snapshotHosts s.switch,?_,fun g => by simpa [hm.hosts] using hacc g,?_,?_⟩
    · refine .busy h _ ?_ hidle (by rw [hm.main]; exact hsw.main)
      rw [hpos]
      refine ⟨rfl,(List.nodup_finRange N).filter _,?_,?_⟩
      · intro g
        rw [hconn,hsw.conn,hacc]
      · intro g
        rw [hopened,hsw.opened,hacc]
    · intro g _
      have hrun := hf.hostRunning hne g
      refine ⟨⟨hrun.running,hrun.reading⟩,?_,?_⟩
      · by_contra hunread
        obtain ⟨m,rest,hq⟩ := List.exists_cons_of_ne_nil hunread
        exact hnone g m (by rw [hq]; simp)
      · intro m hgot
        have hgot' : (s.host g).reading = .got m := hgot
        exact hnone g m (by simp [Host.items,hgot',Reading.items])
    · intro g hg
      exact absurd (by simp [snapshotHosts,hacc]) hg

theorem run_ending (hN : 0 < N) (hmode : ∀ h, (c.args h).mode = .fourLoops)
    {hist : List (Event N)} (hr : Run (systemMachine c) s hist) :
    ∃ p, Follows c s p ∧ Orderly c.plan p ∧ (p.allMarked → ∃ untold, Ending s untold) := by
  induction hr with
  | start hi =>
    obtain rfl : _ = System.initial c := hi
    refine ⟨Progress.initial,Follows.initial c,Orderly.initial _,fun hall => ?_⟩
    simpa [Progress.initial] using hall ⟨0,hN⟩
  | next _ _ hs ih =>
    obtain ⟨p,hf,hp,hend⟩ := ih
    obtain ⟨p',hmoves,hf'⟩ := hf.step hp hs
    have hp' : Orderly c.plan p' := hmoves.invariant (P:=fun p _ => Orderly c.plan p) hp
      fun _ _ _ _ hp ha => hp.advance ha
    refine ⟨p',hf',hp',fun hall' => ?_⟩
    by_cases hall : p.allMarked
    · obtain ⟨untold,he⟩ := hend hall
      exact he.step hf hp hall hmode hs
    · exact hf.ending hf' hp' hall hall' hs

/-- A host that has left its loops. -/
structure HostDone (v : Host) : Prop where
  stopped : v.running = false
  control : v.control.idle = true
  computing : v.computing = .exited
  sending : v.sending = .exited
  reading : v.reading = .exited

/-- A switch whose threads have ended and whose connections are closed. -/
structure SwitchDone (w : Switch N) : Prop where
  stopped : w.running = false
  readers : ∀ r, (w.reader r).isExited = true
  main : w.main = .done
  conn : ∀ g, w.conn g = false
  opened : ∀ g, w.opened g = false

/-- Every token has its result, nothing is under way, and every thread has ended. -/
structure Completed (c : Config N) (s : System N) : Prop where
  quiescent : Quiescent c s
  hosts : ∀ h, HostDone (s.host h)
  switch : SwitchDone s.switch

theorem Ending.switchDone (he : Ending s untold) (hw : SendsWhatItWrites s.switch)
    (hrest : AtRest c s) : untold = [] ∧ SwitchDone s.switch := by
  cases he.switch with
  | busy r untold hduty hidle hmain =>
    exfalso
    rcases hrest.reader hw r with hexited | ⟨hpos,-⟩ | ⟨g,htarget,hblocked⟩
    · cases hq : s.switch.reader r <;> simp [hq,ReaderPos.isExited,Duty] at hexited hduty
    · simp [hpos,Duty] at hduty
    · obtain ⟨rid,rest,hq⟩ := he.switch.of_target htarget
      rw [hq] at hduty
      obtain ⟨rfl,-⟩ := hduty
      rcases hblocked with ⟨-,hunread⟩ | ⟨hnone,hmutex⟩
      · exact hunread (he.untold g (by simp)).toHost
      · refine hmutex fun u => ?_
        by_cases hu : u = r
        · exact .inl (by rw [hu,hnone])
        · exact .inr (by rw [ReaderPos.sendTarget_of_idle (hidle u hu)]; simp)
  | closed hidle hrun hconn hopened =>
    have hexited : ∀ r, (s.switch.reader r).isExited = true := by
      intro r
      rcases hrest.reader hw r with hexited | ⟨-,-,hopen⟩ | ⟨g,htarget,-⟩
      · exact hexited
      · simp [hopened r] at hopen
      · rw [ReaderPos.sendTarget_of_idle (hidle r)] at htarget
        cases htarget
    refine ⟨rfl,hrun,hexited,?_,hconn,hopened⟩
    rcases hrest.main with hdone | ⟨-,r,hr⟩
    · exact hdone
    · simp [hexited r] at hr

theorem Told.hostDone (ht : Told s h) (hf : Follows c s p) (hp : Orderly c.plan p)
    (hall : p.allMarked) (hmode : (c.args h).mode = .fourLoops) (hrest : AtRest c s) :
    HostDone (s.host h) ∧ s.toHost h = [] := by
  have hread := hrest.reading (h:=h) hmode
  cases ht with
  | sent m hl hq _ =>
    rcases hread with hexited | ⟨-,hempty⟩
    · exact absurd hexited hl.reading
    · simp [hq] at hempty
  | got m hl _ hgot =>
    rcases hread with hexited | ⟨hpos,-⟩
    · exact absurd hexited hl.reading
    · simp [hgot] at hpos
  | stopped hst hempty =>
    refine ⟨⟨hst.running,by rw [hrest.control hmode]; rfl,?_,?_,hst.reading⟩,hempty⟩
    · rcases hrest.computing hmode with hexited | ⟨-,-,hopen⟩
      · exact hexited
      · simp [hst.computeClosed] at hopen
    · rcases hrest.sending hmode with hexited | ⟨-,-,hopen⟩ | ⟨m,hm,-⟩
      · exact hexited
      · simp [hst.sendClosed] at hopen
      · have hx : Item.out m ∈ items s h :=
          mem_items_of_host (by simp [Host.items,Sending.items,hm])
        exact absurd hall (hf.notMarked hp hx (by simp))

theorem Ending.completed (he : Ending s untold) (hf : Follows c s p) (hp : Orderly c.plan p)
    (hall : p.allMarked) (hmode : ∀ h, (c.args h).mode = .fourLoops)
    (hw : SendsWhatItWrites s.switch) (hrest : AtRest c s) : Completed c s := by
  obtain ⟨rfl,hswitch⟩ := he.switchDone hw hrest
  have hhost : ∀ h, HostDone (s.host h) ∧ s.toHost h = [] := fun h =>
    (he.told h (by simp)).hostDone hf hp hall (hmode h) hrest
  refine ⟨hf.quiescent hp hall ?_,fun h => (hhost h).1,hswitch⟩
  intro h
  apply Multiset.eq_zero_of_forall_notMem
  intro x hx
  obtain ⟨rid,ts,rfl⟩ := hf.item_of_allMarked hp hall hx
  obtain ⟨hdone,hempty⟩ := hhost h
  have hreader : (s.switch.reader h).items = 0 := by
    have hexited := hswitch.readers h
    cases hq : s.switch.reader h <;> simp [hq,ReaderPos.isExited,ReaderPos.items] at hexited ⊢
  simp [items,Host.items,hreader,hempty,hdone.computing,hdone.sending,hdone.reading,
    Control.items_of_idle hdone.control,Computing.items,Sending.items,Reading.items,mem_bag] at hx
  obtain ⟨t,-,ht⟩ := hx
  cases t <;> cases ht

end INA2A

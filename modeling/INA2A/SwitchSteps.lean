import INA2A.Switch

/-! What one step of a reader thread can do, said once: `ReaderMove` lists every branch of
`readerStep` with its guard, the state it leaves and the events it emits. -/
namespace INA2A

open ByteBuffers BitWords EventMachine

variable {N : ℕ}

@[simp] theorem setReader_hosts (s : Switch N) (h : Fin N) (p : ReaderPos N) :
    (s.setReader h p).hosts = s.hosts := rfl
@[simp] theorem setReader_conn (s : Switch N) (h : Fin N) (p : ReaderPos N) :
    (s.setReader h p).conn = s.conn := rfl
@[simp] theorem setReader_opened (s : Switch N) (h : Fin N) (p : ReaderPos N) :
    (s.setReader h p).opened = s.opened := rfl
@[simp] theorem setReader_combineQueue (s : Switch N) (h : Fin N) (p : ReaderPos N) :
    (s.setReader h p).combineQueue = s.combineQueue := rfl
@[simp] theorem setReader_finishedHosts (s : Switch N) (h : Fin N) (p : ReaderPos N) :
    (s.setReader h p).finishedHosts = s.finishedHosts := rfl
@[simp] theorem setReader_running (s : Switch N) (h : Fin N) (p : ReaderPos N) :
    (s.setReader h p).running = s.running := rfl
@[simp] theorem setReader_writing (s : Switch N) (h : Fin N) (p : ReaderPos N) :
    (s.setReader h p).writing = s.writing := rfl
@[simp] theorem setReader_main (s : Switch N) (h : Fin N) (p : ReaderPos N) :
    (s.setReader h p).main = s.main := rfl
@[simp] theorem setReader_reader (s : Switch N) (h g : Fin N) (p : ReaderPos N) :
    (s.setReader h p).reader g = if g = h then p else s.reader g := by
  simp [Switch.setReader,Function.update_apply]

inductive ReaderMove (s : Switch N) (h : Fin N) : ReaderInput → Switch N → List (Event N) → Prop
  | enterRead (ts) : s.writing h = none → s.reader h = .top → s.running = true →
      s.conn h = true → ReaderMove s h (.go ts) (s.setReader h .reading) [.entersRead h]
  | leave (ts) : s.writing h = none → s.reader h = .top →
      (s.running = false ∨ s.conn h = false) →
      ReaderMove s h (.go ts) (s.setReader h (.exited false)) []
  | recv (m) : s.reader h = .reading → ReaderMove s h (.recv m) (s.setReader h (.got m)) []
  | recvFail : s.reader h = .reading →
      ReaderMove s h .recvFail (s.setReader h (.exited true)) []
  | dispatchMismatch (ts m) : s.writing h = none → s.reader h = .got m →
      m.header.kind = some .dispatchToken → m.payload.size ≠ m.header.payloadLen.toNat →
      ReaderMove s h (.go ts) (s.setReader h .top) [.rejected .payloadSizeMismatch]
  | dispatch (ts m) : s.writing h = none → s.reader h = .got m →
      m.header.kind = some .dispatchToken → m.payload.size = m.header.payloadLen.toNat →
      ReaderMove s h (.go ts)
        (s.setReader h (.looking m (decodeExpertIds m.header.expertBitmap N) [])) []
  | resultRejected (ts m f) : s.writing h = none → s.reader h = .got m →
      m.header.kind = some .expertResult → handleExpertResult s.combineQueue m = .error f →
      ReaderMove s h (.go ts) (s.setReader h .top) [.rejected f]
  | result (ts m queue) : s.writing h = none → s.reader h = .got m →
      m.header.kind = some .expertResult → handleExpertResult s.combineQueue m = .ok queue →
      ReaderMove s h (.go ts) { s.setReader h .top with combineQueue := queue }
        [.accepted (makeKey m.header) m.header.srcRank.toNat m.payload]
  | pullReady (ts m slot) : s.writing h = none → s.reader h = .got m →
      m.header.kind = some .combinePullReq →
      s.combineQueue (makeKey m.header) = some slot → slot.ready = true →
      ReaderMove s h (.go ts)
        { s.setReader h (.replying (combineResultMsg m.header slot ts)) with
          combineQueue := Function.update s.combineQueue (makeKey m.header) none }
        [.taken (makeKey m.header) slot.expectedBitmap slot.data]
  | pullNotReady (ts m slot) : s.writing h = none → s.reader h = .got m →
      m.header.kind = some .combinePullReq →
      s.combineQueue (makeKey m.header) = some slot → slot.ready = false →
      ReaderMove s h (.go ts) (s.setReader h (.replying (notReadyMsg m.header ts))) []
  | pullMissing (ts m) : s.writing h = none → s.reader h = .got m →
      m.header.kind = some .combinePullReq → s.combineQueue (makeKey m.header) = none →
      ReaderMove s h (.go ts) (s.setReader h (.replying (notReadyMsg m.header ts)))
        [.rejected .slotDoesNotExist]
  | ackSeen (ts m) : s.writing h = none → s.reader h = .got m → m.header.kind = some .ack →
      ReaderMove s h (.go ts) (s.setReader h .top) []
  | finishMarked (ts m) : s.writing h = none → s.reader h = .got m →
      m.header.kind = some .finish → (insert h s.finishedHosts).card < N →
      ReaderMove s h (.go ts)
        { s.setReader h .top with finishedHosts := insert h s.finishedHosts } []
  | finishLast (ts m) : s.writing h = none → s.reader h = .got m →
      m.header.kind = some .finish → N ≤ (insert h s.finishedHosts).card →
      ReaderMove s h (.go ts)
        { s.setReader h (.broadcasting m.header.runId (snapshotHosts s)) with
          finishedHosts := insert h s.finishedHosts } [.broadcast]
  | ignored (ts m) : s.writing h = none → s.reader h = .got m →
      (∀ t ∈ m.header.kind, t = .hello ∨ t = .expertInput ∨ t = .combineResult ∨ t = .notReady) →
      ReaderMove s h (.go ts) (s.setReader h .top) [.rejected .ignoredBySwitch]
  | lookupMiss (ts m id ids targets) : s.writing h = none →
      s.reader h = .looking m (id::ids) targets → findHost s id = none →
      ReaderMove s h (.go ts) (s.setReader h (.looking m ids targets))
        [.rejected .noConnectedHost]
  | lookup (ts m id ids targets g) : s.writing h = none →
      s.reader h = .looking m (id::ids) targets → findHost s id = some g →
      ReaderMove s h (.go ts) (s.setReader h (.looking m ids (targets ++ [g]))) []
  | create (ts m targets) : s.writing h = none → s.reader h = .looking m [] targets →
      ReaderMove s h (.go ts) (createSlot s h m targets).1 (createSlot s h m targets).2
  | clear (ts m g rest) : s.writing h = none → s.reader h = .clearing m g rest →
      ReaderMove s h (.go ts)
        { s.setReader h (.dispatching m rest) with
          combineQueue := clearTarget s.combineQueue (makeKey m.header) g }
        (clearedEvents s.combineQueue (makeKey m.header) g)
  | stopRunning (ts rid) : s.writing h = none → s.reader h = .broadcasting rid [] →
      ReaderMove s h (.go ts)
        { s.setReader h (.closing (snapshotHosts s)) with running := false } []
  | close (ts g rest) : s.writing h = none → s.reader h = .closing (g::rest) → s.conn g = true →
      ReaderMove s h (.go ts)
        { s.setReader h (.nulling g rest) with opened := Function.update s.opened g false }
        [.closed g]
  | skipClosed (ts g rest) : s.writing h = none → s.reader h = .closing (g::rest) →
      s.conn g = false → ReaderMove s h (.go ts) (s.setReader h (.closing rest)) []
  | null (ts g rest) : s.writing h = none → s.reader h = .nulling g rest →
      ReaderMove s h (.go ts)
        { s.setReader h (.closing rest) with conn := Function.update s.conn g false } []
  | endClosing (ts) : s.writing h = none → s.reader h = .closing [] →
      ReaderMove s h (.go ts) (s.setReader h (.exited false)) []
  | sendNull (ts g) : s.writing h = none → sendTarget h (s.reader h) = some g →
      s.conn g = false →
      ReaderMove s h (.go ts) (s.setReader h (afterSend false (s.reader h)))
        (afterSendEvents (s.reader h))
  | enterWrite (ts g) : s.writing h = none → sendTarget h (s.reader h) = some g →
      s.conn g = true → writeMutexFree s g →
      ReaderMove s h (.go ts) { s with writing := Function.update s.writing h (some ts) }
        [.entersWrite g]
  | finishWrite (ts g ok) : s.writing h = some ts → sendTarget h (s.reader h) = some g →
      ReaderMove s h (.sent ok) (finishSend s h g ts ok).1 (finishSend s h g ts ok).2

theorem enterSend_move {s s' : Switch N} {h g : Fin N} {ts : U64} {ev : List (Event N)}
    (hw : s.writing h = none) (hg : sendTarget h (s.reader h) = some g)
    (hs : enterSend s h g ts = some (s',ev)) : ReaderMove s h (.go ts) s' ev := by
  unfold enterSend at hs
  split_ifs at hs with hc hm <;> simp only [Option.some.injEq,Prod.mk.injEq] at hs <;>
    obtain ⟨rfl,rfl⟩ := hs
  · exact .sendNull ts g hw hg hc
  · exact .enterWrite ts g hw hg (by simpa using hc) hm

theorem handleMessage_move {s : Switch N} {h : Fin N} {m : Msg} (ts : U64)
    (hw : s.writing h = none) (hp : s.reader h = .got m) :
    ReaderMove s h (.go ts) (handleMessage s h m ts).1 (handleMessage s h m ts).2 := by
  unfold handleMessage
  split
  case h_1 hk =>
    split_ifs with hsize
    · exact .dispatchMismatch ts m hw hp hk hsize
    · exact .dispatch ts m hw hp hk (not_not.mp hsize)
  case h_2 hk =>
    split
    · rename_i f hf
      exact .resultRejected ts m f hw hp hk hf
    · rename_i queue hq
      exact .result ts m queue hw hp hk hq
  case h_3 hk =>
    simp only [handleCombinePullReq]
    split
    · rename_i slot hslot
      split_ifs with hready
      · exact .pullReady ts m slot hw hp hk hslot hready
      · exact .pullNotReady ts m slot hw hp hk hslot (by simpa using hready)
    · rename_i hnone
      exact .pullMissing ts m hw hp hk hnone
  case h_4 hk => exact .ackSeen ts m hw hp hk
  case h_5 hk =>
    dsimp only
    split_ifs with hcard
    · exact .finishLast ts m hw hp hk hcard
    · exact .finishMarked ts m hw hp hk (by omega)
  case h_6 h1 h2 h3 h4 h5 =>
    refine .ignored ts m hw hp ?_
    intro t ht
    have hk : m.header.kind = some t := ht
    cases t <;> simp_all

theorem readerLocal_move {s s' : Switch N} {h : Fin N} {ts : U64} {ev : List (Event N)}
    (hw : s.writing h = none) (hs : readerLocal s h ts = some (s',ev)) :
    ReaderMove s h (.go ts) s' ev := by
  unfold readerLocal at hs
  split at hs
  case h_1 hp =>
    split_ifs at hs with hc <;> simp only [Option.some.injEq,Prod.mk.injEq] at hs <;>
      obtain ⟨rfl,rfl⟩ := hs
    · simp only [Bool.and_eq_true] at hc
      exact .enterRead ts hw hp hc.1 hc.2
    · refine .leave ts hw hp ?_
      rw [Bool.and_eq_true,not_and_or] at hc
      simpa using hc
  case h_2 m hp => simpa only [Option.some.inj hs] using handleMessage_move ts hw hp
  case h_3 m id ids targets hp =>
    split at hs <;> simp only [Option.some.injEq,Prod.mk.injEq] at hs <;> obtain ⟨rfl,rfl⟩ := hs
    · rename_i hf
      exact .lookupMiss ts m id ids targets hw hp hf
    · rename_i g hf
      exact .lookup ts m id ids targets g hw hp hf
  case h_4 m targets hp => simpa only [Option.some.inj hs] using ReaderMove.create ts m targets hw hp
  case h_10 =>
    split at hs
    · rename_i g hg
      exact enterSend_move hw hg hs
    · cases hs
  case h_7 g rest hp =>
    split_ifs at hs with hc <;> simp only [Option.some.injEq,Prod.mk.injEq] at hs <;>
      obtain ⟨rfl,rfl⟩ := hs
    · exact .close ts g rest hw hp hc
    · exact .skipClosed ts g rest hw hp (by simpa using hc)
  case h_5 m g rest hp =>
    simp only [Option.some.injEq,Prod.mk.injEq] at hs
    obtain ⟨rfl,rfl⟩ := hs
    exact .clear ts m g rest hw hp
  case h_6 rid hp =>
    simp only [Option.some.injEq,Prod.mk.injEq] at hs
    obtain ⟨rfl,rfl⟩ := hs
    exact .stopRunning ts rid hw hp
  case h_8 g rest hp =>
    simp only [Option.some.injEq,Prod.mk.injEq] at hs
    obtain ⟨rfl,rfl⟩ := hs
    exact .null ts g rest hw hp
  case h_9 hp =>
    simp only [Option.some.injEq,Prod.mk.injEq] at hs
    obtain ⟨rfl,rfl⟩ := hs
    exact .endClosing ts hw hp

theorem readerStep_move {s s' : Switch N} {h : Fin N} {i : ReaderInput} {ev : List (Event N)}
    (hs : readerStep s h i = some (s',ev)) : ReaderMove s h i s' ev := by
  cases i with
  | go ts =>
    simp only [readerStep] at hs
    split_ifs at hs with hw
    exact readerLocal_move hw hs
  | recv m =>
    simp only [readerStep] at hs
    split at hs
    · rename_i hp
      simp only [Option.some.injEq,Prod.mk.injEq] at hs
      obtain ⟨rfl,rfl⟩ := hs
      exact .recv m hp
    · cases hs
  | recvFail =>
    simp only [readerStep] at hs
    split at hs
    · rename_i hp
      simp only [Option.some.injEq,Prod.mk.injEq] at hs
      obtain ⟨rfl,rfl⟩ := hs
      exact .recvFail hp
    · cases hs
  | sent ok =>
    simp only [readerStep] at hs
    split at hs
    · rename_i ts g hw hg
      simpa only [Option.some.inj hs] using ReaderMove.finishWrite ts g ok hw hg
    · cases hs

inductive MainMove (s : Switch N) : Switch N → List (Event N) → Prop
  | joined : s.main = .joining → (∀ h, (s.reader h).isExited = true) →
      MainMove s { s with running := false, main := .closing (snapshotHosts s) } []
  | close (g rest) : s.main = .closing (g::rest) → s.conn g = true →
      MainMove s { s with main := .nulling g rest, opened := Function.update s.opened g false }
        [.closed g]
  | skipClosed (g rest) : s.main = .closing (g::rest) → s.conn g = false →
      MainMove s { s with main := .closing rest } []
  | null (g rest) : s.main = .nulling g rest →
      MainMove s { s with main := .closing rest, conn := Function.update s.conn g false } []
  | finish : s.main = .closing [] → MainMove s { s with main := .done } []

theorem mainStep_move {s s' : Switch N} {ev : List (Event N)}
    (hs : mainStep s = some (s',ev)) : MainMove s s' ev := by
  unfold mainStep at hs
  split at hs
  case h_1 hp =>
    split_ifs at hs with hx
    simp only [Option.some.injEq,Prod.mk.injEq] at hs
    obtain ⟨rfl,rfl⟩ := hs
    exact .joined hp hx
  case h_2 g rest hp =>
    split_ifs at hs with hc <;> simp only [Option.some.injEq,Prod.mk.injEq] at hs <;>
      obtain ⟨rfl,rfl⟩ := hs
    · exact .close g rest hp hc
    · exact .skipClosed g rest hp (by simpa using hc)
  case h_3 g rest hp =>
    simp only [Option.some.injEq,Prod.mk.injEq] at hs
    obtain ⟨rfl,rfl⟩ := hs
    exact .null g rest hp
  case h_4 hp =>
    simp only [Option.some.injEq,Prod.mk.injEq] at hs
    obtain ⟨rfl,rfl⟩ := hs
    exact .finish hp
  case h_5 => cases hs

inductive SwitchMove (s : Switch N) : SwitchAction N → Switch N → List (Event N) → Prop
  | accept (g) : s.hosts g = false →
      SwitchMove s (.accept g)
        { s with hosts := Function.update s.hosts g true,
                 conn := Function.update s.conn g true,
                 opened := Function.update s.opened g true } []
  | start (h) : s.reader h = .notStarted → (∀ g, s.hosts g = true) →
      SwitchMove s (.start h) (s.setReader h .top) []
  | reader (h i s' ev) : ReaderMove s h i s' ev → SwitchMove s (.reader h i) s' ev
  | main (s' ev) : MainMove s s' ev → SwitchMove s .main s' ev

theorem switchStep_move {s s' : Switch N} {a : SwitchAction N} {ev : List (Event N)}
    (hs : switchStep s a = some (s',ev)) : SwitchMove s a s' ev := by
  cases a with
  | accept g =>
    simp only [switchStep] at hs
    split_ifs at hs with hg
    simp only [Option.some.injEq,Prod.mk.injEq] at hs
    obtain ⟨rfl,rfl⟩ := hs
    exact .accept g (by simpa using hg)
  | start h =>
    simp only [switchStep] at hs
    split at hs
    · rename_i hp
      split_ifs at hs with hall
      simp only [Option.some.injEq,Prod.mk.injEq] at hs
      obtain ⟨rfl,rfl⟩ := hs
      exact .start h hp hall
    · cases hs
  | reader h i => exact .reader h i s' ev (readerStep_move hs)
  | main => exact .main s' ev (mainStep_move hs)

theorem ReaderMove.started {s s' : Switch N} {h : Fin N} {i : ReaderInput} {ev : List (Event N)}
    (hm : ReaderMove s h i s' ev) : s.reader h ≠ .notStarted := by
  intro hn
  cases hm <;> simp_all [sendTarget]

theorem ReaderMove.hosts {s s' : Switch N} {h : Fin N} {i : ReaderInput} {ev : List (Event N)}
    (hm : ReaderMove s h i s' ev) : s'.hosts = s.hosts := by
  cases hm <;> rfl

theorem ReaderMove.main {s s' : Switch N} {h : Fin N} {i : ReaderInput} {ev : List (Event N)}
    (hm : ReaderMove s h i s' ev) : s'.main = s.main := by
  cases hm <;> rfl

theorem ReaderMove.reader_of_ne {s s' : Switch N} {h g : Fin N} {i : ReaderInput}
    {ev : List (Event N)} (hm : ReaderMove s h i s' ev) (hg : g ≠ h) :
    s'.reader g = s.reader g := by
  cases hm <;> simp [hg,createSlot,finishSend]

theorem MainMove.hosts {s s' : Switch N} {ev : List (Event N)} (hm : MainMove s s' ev) :
    s'.hosts = s.hosts := by
  cases hm <;> rfl

theorem MainMove.reader {s s' : Switch N} {ev : List (Event N)} (hm : MainMove s s' ev) :
    s'.reader = s.reader := by
  cases hm <;> rfl

theorem MainMove.combineQueue {s s' : Switch N} {ev : List (Event N)} (hm : MainMove s s' ev) :
    s'.combineQueue = s.combineQueue := by
  cases hm <;> rfl

/-- Readers run, and slots exist, only once every rank is registered. -/
structure Registered (s : Switch N) : Prop where
  reader : ∀ h, s.reader h ≠ .notStarted → ∀ g, s.hosts g = true
  slot : ∀ k, (s.combineQueue k).isSome = true → ∀ g, s.hosts g = true

theorem Registered.initial : Registered (Switch.initial (N:=N)) where
  reader h hh := absurd rfl hh
  slot k hk := by simp [Switch.initial] at hk

theorem Registered.step {s s' : Switch N} {a : SwitchAction N} {ev : List (Event N)}
    (hr : Registered s) (hm : SwitchMove s a s' ev) : Registered s' := by
  cases hm with
  | accept g hg =>
    constructor
    · intro h hh g'
      have := hr.reader h hh g'
      simp [Function.update_apply,this]
    · intro k hk g'
      have := hr.slot k hk g'
      simp [Function.update_apply,this]
  | start h hp hall => exact ⟨fun _ _ => hall,fun _ _ => hall⟩
  | reader h i _ _ hmove =>
    have hall := hr.reader h hmove.started
    rw [← hmove.hosts] at hall
    exact ⟨fun _ _ => hall,fun _ _ => hall⟩
  | main _ _ hmove =>
    constructor
    · intro h
      rw [hmove.reader,hmove.hosts]
      exact hr.reader h
    · intro k
      rw [hmove.combineQueue,hmove.hosts]
      exact hr.slot k

theorem registered_of_run {s : Switch N} {hist : List (Event N)}
    (hrun : Run (switchMachine N) s hist) : Registered s := by
  refine hrun.invariant (P := fun s _ => Registered s) ?_ ?_
  · rintro s rfl
    exact Registered.initial
  · intro s hist a s' ev _ ih _ hs
    exact ih.step (switchStep_move hs)

end INA2A

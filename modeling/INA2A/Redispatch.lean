import INA2A.SwitchResults
import INA2A.System

/-! Dispatching a key again: the switch with the experts' work in flight.  Whatever arrives at the
switch may arrive, but an EXPERT_RESULT is one that an expert has computed from an EXPERT_INPUT
the switch has sent.  Inputs wait for their expert, and results for the switch, in any order. -/
namespace INA2A

open ByteBuffers BitWords EventMachine

variable {N : ℕ}

/-- An EXPERT_INPUT that was sent to `expert`, or the EXPERT_RESULT that came of it.
`gen` and `source` are not part of the message: they say which of the slots of its key it was
sent for, and the DISPATCH_TOKEN that slot was created for. -/
structure Work (N : ℕ) where
  expert : Fin N
  gen : ℕ
  source : Msg
  msg : Msg

def Work.key (w : Work N) : CombineKey := makeKey w.source.header

structure Redispatch (N : ℕ) where
  switch : Switch N
  /-- Sent and not yet computed. -/
  inputs : List (Work N)
  /-- Computed and not yet received by the switch. -/
  results : List (Work N)
  /-- How many slots have been created for a key, and the last DISPATCH_TOKEN among theirs. -/
  gen : CombineKey → ℕ
  latest : CombineKey → Msg
  /-- The slot that the dispatch call of a reader created. -/
  call : Fin N → ℕ
  /-- The result that a reader has received and not yet handled. -/
  hand : Fin N → Option (Work N)

def Redispatch.initial : Redispatch N where
  switch := Switch.initial
  inputs := []
  results := []
  gen _ := 0
  latest _ := ⟨MsgHeader.new .hello 0,Bytes.empty⟩
  call _ := 0
  hand _ := none

inductive RedispatchAction (N : ℕ)
  | switch (a : SwitchAction N)
  | compute (j : ℕ) (ts : U64)
  | deliver (j : ℕ)

/-- A message that does not come from an expert at work. -/
def foreign : SwitchAction N → Bool
  | .reader _ (.recv m) => m.header.kind ≠ some .expertResult
  | _ => true

/-- What a step of the switch that leaves it in `w` does to the work in flight. -/
def Redispatch.afterSwitch (s : Redispatch N) (w : Switch N) : SwitchAction N → Redispatch N
  | .reader h (.go _) =>
    match s.switch.reader h with
    | .looking m [] _ =>
      let key := makeKey m.header
      { s with
        switch := w
        gen := Function.update s.gen key (s.gen key + 1)
        latest := Function.update s.latest key m
        call := Function.update s.call h (s.gen key + 1) }
    | .got _ => { s with switch := w, hand := Function.update s.hand h none }
    | _ => { s with switch := w }
  | .reader h (.sent true) =>
    match s.switch.reader h, s.switch.writing h with
    | .dispatching m (g::_), some ts =>
      { s with switch := w, inputs := s.inputs ++ [⟨g,s.call h,m,expertInputMsg m g ts⟩] }
    | _, _ => { s with switch := w }
  | _ => { s with switch := w }

def redispatchStep (c : Config N) (s : Redispatch N) :
    RedispatchAction N → Option (Redispatch N × List (Event N))
  | .switch a =>
    if foreign a then (switchStep s.switch a).map fun r => (s.afterSwitch r.1 a,r.2) else none
  | .compute j ts =>
    s.inputs[j]?.map fun w =>
      ({ s with
        inputs := s.inputs.eraseIdx j
        results := s.results ++ [{ w with msg := expertResultMsg (c.env w.expert) w.msg ts }] },[])
  | .deliver j =>
    s.results[j]?.bind fun w =>
      (switchStep s.switch (.reader w.expert (.recv w.msg))).map fun r =>
        ({ s with
          switch := r.1
          results := s.results.eraseIdx j
          hand := Function.update s.hand w.expert (some w) },r.2)

def redispatchMachine (c : Config N) : Machine (Redispatch N) (RedispatchAction N) (Event N) where
  init s := s = Redispatch.initial
  step := redispatchStep c

/-- Sent to its expert and not yet handled by the switch. -/
def Redispatch.UnderWay (s : Redispatch N) (w : Work N) : Prop :=
  w ∈ s.inputs ∨ w ∈ s.results ∨ ∃ h, s.hand h = some w

/-- The slot of `key` waits for `g`. -/
def Redispatch.Awaits (s : Redispatch N) (key : CombineKey) (g : Fin N) (slot : QueueSlot) : Prop :=
  s.switch.combineQueue key = some slot ∧ slot.pendingBitmap.getLsbD g = true

/-- No step lets the work for an earlier slot of a key meet a newer one that waits for the same
expert: a slot is created when no work of its length is under way for its experts, and a call
that was overtaken neither sends an input of that length nor fails to send one. -/
def Separate (s : Redispatch N) : RedispatchAction N → Prop
  | .switch (.reader h (.go _)) =>
    match s.switch.reader h with
    | .looking m [] targets => ∀ w, s.UnderWay w → w.key = makeKey m.header → w.expert ∈ targets →
      w.source.payload.size ≠ m.payload.size
    | .clearing m g _ => s.call h ≠ s.gen (makeKey m.header) →
      ∀ slot, ¬s.Awaits (makeKey m.header) g slot
    | _ => True
  | .switch (.reader h (.sent true)) =>
    match s.switch.reader h with
    | .dispatching m (g::_) => s.call h ≠ s.gen (makeKey m.header) →
      ∀ slot, s.Awaits (makeKey m.header) g slot → m.payload.size ≠ slot.payloadLen.toNat
    | _ => True
  | _ => True

/-- A dispatch call has a message of the announced size and looks every expert up once. -/
def ReaderPos.Fans : ReaderPos N → Prop
  | .looking m ids targets =>
    m.payload.size = m.header.payloadLen.toNat ∧ (targets.map Fin.val ++ ids).Nodup
  | .dispatching m _ | .clearing m _ _ => m.payload.size = m.header.payloadLen.toNat
  | _ => True

theorem decodeExpertIds_nodup (bitmap : U64) (n : ℕ) : (decodeExpertIds bitmap n).Nodup := by
  unfold decodeExpertIds
  dsimp only
  split_ifs
  · exact List.nodup_singleton 0
  · exact List.nodup_range.filter _

theorem findHost_val {s : Switch N} {id : ℕ} {g : Fin N} (hg : findHost s id = some g) :
    g.val = id := by
  unfold findHost at hg
  split_ifs at hg
  cases hg
  rfl

theorem afterSend_fans {p : ReaderPos N} (hp : p.Fans) (ok : Bool) : (afterSend ok p).Fans := by
  cases p with
  | dispatching m targets =>
    cases targets with
    | nil => trivial
    | cons g rest => cases ok <;> exact hp
  | broadcasting runId rest => cases rest <;> trivial
  | replying response => trivial
  | _ => exact hp

theorem ReaderMove.fans {s s' : Switch N} {h : Fin N} {i : ReaderInput} {ev : List (Event N)}
    (hm : ReaderMove s h i s' ev) (hp : (s.reader h).Fans) : (s'.reader h).Fans := by
  cases hm with
  | dispatch ts m hw hgot hkind hsize =>
    simpa [ReaderPos.Fans,hsize] using decodeExpertIds_nodup m.header.expertBitmap N
  | lookupMiss ts m id ids targets hw hpos hfind =>
    rw [hpos] at hp
    simp only [setReader_reader,if_true]
    exact ⟨hp.1,hp.2.sublist (List.Sublist.append_left (List.sublist_cons_self id ids) _)⟩
  | lookup ts m id ids targets g hw hpos hfind =>
    rw [hpos] at hp
    simp only [setReader_reader,if_true]
    refine ⟨hp.1,?_⟩
    rw [List.map_append,List.map_singleton,findHost_val hfind,List.append_assoc]
    exact hp.2
  | create ts m targets hw hpos =>
    rw [hpos] at hp
    simpa [createSlot,ReaderPos.Fans] using hp.1
  | clear ts m g rest hw hpos =>
    rw [hpos] at hp
    simpa [ReaderPos.Fans] using hp
  | sendNull ts g =>
    simp only [setReader_reader,if_true]
    exact afterSend_fans hp false
  | enterWrite ts g => exact hp
  | finishWrite ts g ok =>
    simp only [finishSend,setReader_reader,if_true]
    exact afterSend_fans hp ok
  | _ => simp [ReaderPos.Fans]

theorem fans_of_run {s : Switch N} {hist : List (Event N)} (hr : Run (switchMachine N) s hist)
    (h : Fin N) : (s.reader h).Fans := by
  induction hr with
  | start hi =>
    cases hi
    trivial
  | next _ _ hs ih =>
    cases switchStep_move hs with
    | accept g => exact ih
    | start g =>
      rw [setReader_reader]
      split_ifs
      · trivial
      · exact ih
    | reader g i _ _ hmove =>
      by_cases hg : h = g
      · subst hg
        exact hmove.fans ih
      · rw [hmove.reader_of_ne hg]
        exact ih
    | main _ _ hmove =>
      rw [hmove.reader]
      exact ih

variable {c : Config N} {s s' : Redispatch N} {hist ev : List (Event N)}

inductive RedispatchMove (c : Config N) (s : Redispatch N) :
    RedispatchAction N → Redispatch N → List (Event N) → Prop
  | switch {a w ev} : foreign a = true → switchStep s.switch a = some (w,ev) →
      RedispatchMove c s (.switch a) (s.afterSwitch w a) ev
  | compute {j w} (ts : U64) : s.inputs[j]? = some w →
      RedispatchMove c s (.compute j ts)
        { s with
          inputs := s.inputs.eraseIdx j
          results := s.results ++ [{ w with msg := expertResultMsg (c.env w.expert) w.msg ts }] } []
  | deliver {j w} : s.results[j]? = some w → s.switch.reader w.expert = .reading →
      RedispatchMove c s (.deliver j)
        { s with
          switch := s.switch.setReader w.expert (.got w.msg)
          results := s.results.eraseIdx j
          hand := Function.update s.hand w.expert (some w) } []

theorem redispatchStep_move {a : RedispatchAction N}
    (hs : redispatchStep c s a = some (s',ev)) : RedispatchMove c s a s' ev := by
  cases a with
  | switch a =>
    simp only [redispatchStep] at hs
    split_ifs at hs with hfor
    obtain ⟨⟨w,ev'⟩,hstep,heq⟩ := Option.map_eq_some_iff.mp hs
    cases heq
    exact .switch hfor hstep
  | compute j ts =>
    obtain ⟨w,hw,heq⟩ := Option.map_eq_some_iff.mp hs
    cases heq
    exact .compute ts hw
  | deliver j =>
    obtain ⟨w,hw,hdeliver⟩ := Option.bind_eq_some_iff.mp hs
    obtain ⟨⟨t,ev'⟩,hstep,heq⟩ := Option.map_eq_some_iff.mp hdeliver
    cases heq
    have hreader : readerStep s.switch w.expert (.recv w.msg) = some (t,ev') := hstep
    cases readerStep_move hreader with
    | recv m hpos => exact .deliver hw hpos

@[simp] theorem afterSwitch_switch (w : Switch N) (a : SwitchAction N) :
    (s.afterSwitch w a).switch = w := by
  unfold Redispatch.afterSwitch
  split
  · split <;> rfl
  · split <;> rfl
  · rfl

theorem redispatch_switch {ok : Redispatch N → RedispatchAction N → Prop}
    (hr : RunOn (redispatchMachine c) ok s hist) : Run (switchMachine N) s.switch hist := by
  induction hr with
  | start hi =>
    cases hi
    exact .start rfl
  | @next s s' hist ev a _ _ hs ih =>
    cases redispatchStep_move hs with
    | switch hfor hstep =>
      rw [afterSwitch_switch]
      exact ih.step hstep
    | compute ts hw => simpa using ih
    | @deliver j w hw hpos =>
      have hstep : (switchMachine N).step s.switch (.reader w.expert (.recv w.msg)) =
          some (s.switch.setReader w.expert (.got w.msg),[]) := by
        simp [switchMachine,switchStep,readerStep,hpos]
      exact ih.step hstep

def expertOutput (payload : Bytes) : Bytes :=
  Bytes.tabulate payload.size fun i => payload.get i * 2

def Work.Sized (w : Work N) : Prop :=
  w.source.payload.size = w.source.header.payloadLen.toNat

def Work.IsInput (w : Work N) : Prop :=
  w.Sized ∧ ∃ ts, w.msg = expertInputMsg w.source w.expert ts

def Work.IsResult (c : Config N) (w : Work N) : Prop :=
  w.Sized ∧ ∃ ts ts',
    w.msg = expertResultMsg (c.env w.expert) (expertInputMsg w.source w.expert ts) ts'

theorem Work.IsResult.kind {w : Work N} (h : w.IsResult c) :
    w.msg.header.kind = some .expertResult := by
  obtain ⟨-,ts,ts',heq⟩ := h
  rw [heq]
  rfl

theorem Work.IsResult.key {w : Work N} (h : w.IsResult c) : makeKey w.msg.header = w.key := by
  obtain ⟨-,ts,ts',heq⟩ := h
  rw [heq]
  rfl

theorem Work.IsResult.srcRank {w : Work N} (h : w.IsResult c) :
    w.msg.header.srcRank.toNat = w.expert := by
  obtain ⟨-,ts,ts',heq⟩ := h
  have := c.hosts_le
  rw [heq]
  change (BitVec.ofNat 32 w.expert.val).toNat = _
  rw [BitVec.toNat_ofNat]
  exact Nat.mod_eq_of_lt (by omega)

theorem Work.IsResult.payload {w : Work N} (h : w.IsResult c) :
    w.msg.payload = expertOutput w.source.payload := by
  obtain ⟨hsize,ts,ts',heq⟩ := h
  have hlen : (BitVec.ofNat 32 w.source.payload.size).toNat = w.source.payload.size := by
    rw [hsize,BitVec.ofNat_toNat,BitVec.setWidth_eq]
  rw [heq]
  change (expertOutput w.source.payload).take (BitVec.ofNat 32 w.source.payload.size).toNat = _
  rw [hlen]
  exact Bytes.take_self (expertOutput w.source.payload)

/-- Every message in flight is what its ghost fields say. -/
structure Formed (c : Config N) (s : Redispatch N) : Prop where
  inputs : ∀ w ∈ s.inputs, w.IsInput
  results : ∀ w ∈ s.results, w.IsResult c
  hand : ∀ h w, s.hand h = some w → s.switch.reader h = .got w.msg ∧ w.expert = h ∧ w.IsResult c
  held : ∀ h m, s.switch.reader h = .got m → m.header.kind = some .expertResult →
    ∃ w, s.hand h = some w

theorem Formed.initial : Formed c Redispatch.initial where
  inputs w hw := by cases hw
  results w hw := by cases hw
  hand h w hw := by cases hw
  held h m hm := by cases hm

/-- The EXPERT_INPUTs a dispatch call has still to send, with its DISPATCH_TOKEN. -/
def ReaderPos.due : ReaderPos N → List (Msg × Fin N)
  | .dispatching m targets => targets.map (Prod.mk m)
  | .clearing m g rest => (g::rest).map (Prod.mk m)
  | _ => []

/-- A step that leaves the work in flight and every slot that waits for somebody as they are. -/
structure Still (s s' : Redispatch N) (ev : List (Event N)) : Prop where
  inputs : s'.inputs = s.inputs
  results : s'.results = s.results
  gen : s'.gen = s.gen
  latest : s'.latest = s.latest
  call : s'.call = s.call
  hand : s'.hand = s.hand
  due : ∀ h, (s'.switch.reader h).due = (s.switch.reader h).due
  queue : ∀ k slot, s'.switch.combineQueue k = some slot → s.switch.combineQueue k = some slot
  kept : ∀ k slot, s.switch.combineQueue k = some slot → slot.ready = false →
    s'.switch.combineQueue k = some slot
  unrecorded : ∀ k r, ev.foldl (recordStep k) r = r

/-- Everything a step can do to the work in flight. -/
inductive WorkMove (c : Config N) (s : Redispatch N) : Redispatch N → List (Event N) → Prop
  | still (t : Redispatch N) (ev : List (Event N)) : Still s t ev → WorkMove c s t ev
  | created (h m targets) : s.switch.reader h = .looking m [] targets →
      (∀ w, s.UnderWay w → w.key = makeKey m.header → w.expert ∈ targets →
        w.source.payload.size ≠ m.payload.size) →
      WorkMove c s
        { s with
          switch := (createSlot s.switch h m targets).1
          gen := Function.update s.gen (makeKey m.header) (s.gen (makeKey m.header) + 1)
          latest := Function.update s.latest (makeKey m.header) m
          call := Function.update s.call h (s.gen (makeKey m.header) + 1) }
        (createSlot s.switch h m targets).2
  | sent (h m g rest ts) : s.switch.reader h = .dispatching m (g::rest) →
      (s.call h ≠ s.gen (makeKey m.header) → ∀ slot, s.Awaits (makeKey m.header) g slot →
        m.payload.size ≠ slot.payloadLen.toNat) →
      WorkMove c s
        { s with
          switch := (finishSend s.switch h g ts true).1
          inputs := s.inputs ++ [⟨g,s.call h,m,expertInputMsg m g ts⟩] }
        (finishSend s.switch h g ts true).2
  | cleared (h m g rest) : s.switch.reader h = .clearing m g rest →
      (s.call h ≠ s.gen (makeKey m.header) → ∀ slot, ¬s.Awaits (makeKey m.header) g slot) →
      WorkMove c s
        { s with switch := { s.switch.setReader h (.dispatching m rest) with
            combineQueue := clearTarget s.switch.combineQueue (makeKey m.header) g } }
        (clearedEvents s.switch.combineQueue (makeKey m.header) g)
  | accepted (h w queue) : s.hand h = some w →
      handleExpertResult s.switch.combineQueue w.msg = .ok queue →
      WorkMove c s
        { s with
          switch := { s.switch.setReader h .top with combineQueue := queue }
          hand := Function.update s.hand h none }
        [.accepted (makeKey w.msg.header) w.msg.header.srcRank.toNat w.msg.payload]
  | rejected (h w f) : s.hand h = some w →
      handleExpertResult s.switch.combineQueue w.msg = .error f →
      WorkMove c s
        { s with
          switch := s.switch.setReader h .top
          hand := Function.update s.hand h none } [.rejected f]
  | computed (j w ts) : s.inputs[j]? = some w →
      WorkMove c s
        { s with
          inputs := s.inputs.eraseIdx j
          results := s.results ++ [{ w with msg := expertResultMsg (c.env w.expert) w.msg ts }] } []
  | delivered (j w) : s.results[j]? = some w → s.switch.reader w.expert = .reading →
      WorkMove c s
        { s with
          switch := s.switch.setReader w.expert (.got w.msg)
          results := s.results.eraseIdx j
          hand := Function.update s.hand w.expert (some w) } []

theorem Still.of_reader {w : Switch N} {h : Fin N} {i : ReaderInput}
    (hm : ReaderMove s.switch h i w ev) (hdue : (w.reader h).due = (s.switch.reader h).due)
    (hqueue : w.combineQueue = s.switch.combineQueue) (hev : ∀ e ∈ ev, e.aboutQueue = false) :
    Still s { s with switch := w } ev where
  inputs := rfl
  results := rfl
  gen := rfl
  latest := rfl
  call := rfl
  hand := rfl
  due g := by
    by_cases hg : g = h
    · subst hg
      exact hdue
    · exact congrArg ReaderPos.due (hm.reader_of_ne hg)
  queue k slot hk := by rwa [← hqueue]
  kept k slot hk _ := by rwa [hqueue]
  unrecorded k r := foldl_recordStep_of_not_aboutQueue k r hev

theorem afterSwitch_got {w : Switch N} {h : Fin N} {ts : U64} {m : Msg}
    (hgot : s.switch.reader h = .got m) (hhand : s.hand h = none) :
    s.afterSwitch w (.reader h (.go ts)) = { s with switch := w } := by
  simp only [Redispatch.afterSwitch,hgot]
  rw [← hhand,Function.update_eq_self]

theorem Formed.hand_none (hf : Formed c s) {h : Fin N} {m : Msg} (hgot : s.switch.reader h = .got m)
    (hkind : m.header.kind ≠ some .expertResult) : s.hand h = none := by
  cases hhand : s.hand h with
  | none => rfl
  | some w =>
    obtain ⟨hpos,-,hresult⟩ := hf.hand h w hhand
    rw [hgot] at hpos
    cases hpos
    exact absurd hresult.kind hkind

theorem Formed.held_msg (hf : Formed c s) {h : Fin N} {m : Msg} (hgot : s.switch.reader h = .got m)
    (hkind : m.header.kind = some .expertResult) : ∃ w, s.hand h = some w ∧ w.msg = m := by
  obtain ⟨w,hhand⟩ := hf.held h m hgot hkind
  have hmsg := (hf.hand h w hhand).1
  rw [hgot] at hmsg
  cases hmsg
  exact ⟨w,hhand,rfl⟩

theorem afterSend_false_due {h g : Fin N} {p : ReaderPos N} (hg : sendTarget h p = some g) :
    (afterSend false p).due = p.due := by
  cases p with
  | dispatching m targets => cases targets <;> rfl
  | broadcasting runId rest => cases rest <;> rfl
  | replying response => rfl
  | _ => cases hg

theorem afterSwitch_sending {w : Switch N} {h g : Fin N} {ts : U64}
    (hg : sendTarget h (s.switch.reader h) = some g) :
    s.afterSwitch w (.reader h (.go ts)) = { s with switch := w } := by
  cases hp : s.switch.reader h with
  | dispatching m targets => simp only [Redispatch.afterSwitch,hp]
  | broadcasting runId rest => simp only [Redispatch.afterSwitch,hp]
  | replying response => simp only [Redispatch.afterSwitch,hp]
  | _ => simp [hp,sendTarget] at hg

theorem finishSend_aboutQueue {w : Switch N} {h g : Fin N} {ts : U64} (ok : Bool) :
    ∀ e ∈ (finishSend w h g ts ok).2, e.aboutQueue = false := by
  intro e he
  rcases List.mem_append.mp he with he | he
  · cases ok with
    | false => cases he
    | true =>
      obtain rfl := List.mem_singleton.mp he
      rfl
  · exact afterSendEvents_aboutQueue _ e he

theorem takeReady_still {h : Fin N} {m m' : Msg} {slot : QueueSlot}
    (hgot : s.switch.reader h = .got m)
    (hslot : s.switch.combineQueue (makeKey m.header) = some slot) (hready : slot.ready = true) :
    Still s { s with switch := { s.switch.setReader h (.replying m') with
        combineQueue := Function.update s.switch.combineQueue (makeKey m.header) none } }
      [.taken (makeKey m.header) slot.expectedBitmap slot.data] := by
  refine ⟨rfl,rfl,rfl,rfl,rfl,rfl,?_,?_,?_,fun k r => rfl⟩
  · intro g
    by_cases hg : g = h
    · subst hg
      simp [ReaderPos.due,hgot]
    · simp [hg]
  · intro k slot' hk
    dsimp only at hk
    rw [Function.update_apply] at hk
    split_ifs at hk
    exact hk
  · intro k slot' hk hwaits
    have hne : k ≠ makeKey m.header := by
      rintro rfl
      rw [hslot] at hk
      cases hk
      rw [hready] at hwaits
      cases hwaits
    dsimp only
    rwa [Function.update_of_ne hne]

/-- The completed write of a dispatch call puts an EXPERT_INPUT in flight, any other leaves the
work as it is. -/
theorem finishSend_workMove {h g : Fin N} {ts : U64} {ok : Bool}
    (hok : Separate s (.switch (.reader h (.sent ok)))) (hw : s.switch.writing h = some ts)
    (hg : sendTarget h (s.switch.reader h) = some g) :
    WorkMove c s (s.afterSwitch (finishSend s.switch h g ts ok).1 (.reader h (.sent ok)))
      (finishSend s.switch h g ts ok).2 := by
  have hstill := Still.of_reader (.finishWrite ts g ok hw hg)
  cases ok with
  | false =>
    apply WorkMove.still
    apply hstill
    · simpa [finishSend] using afterSend_false_due hg
    · rfl
    · exact finishSend_aboutQueue false
  | true =>
    cases hp : s.switch.reader h with
    | dispatching m targets =>
      cases targets with
      | nil =>
        simp only [Redispatch.afterSwitch,hp]
        apply WorkMove.still
        apply hstill
        · simp [finishSend,hp,afterSend,ReaderPos.due]
        · rfl
        · exact finishSend_aboutQueue true
      | cons g' rest =>
        rw [hp] at hg
        obtain rfl := Option.some.inj hg
        simp only [Separate,hp] at hok
        simp only [Redispatch.afterSwitch,hp,hw]
        exact .sent h m g' rest ts hp hok
    | replying response =>
      simp only [Redispatch.afterSwitch,hp]
      apply WorkMove.still
      apply hstill
      · simp [finishSend,hp,afterSend,ReaderPos.due]
      · rfl
      · exact finishSend_aboutQueue true
    | broadcasting runId rest =>
      simp only [Redispatch.afterSwitch,hp]
      apply WorkMove.still
      apply hstill
      · cases rest <;> simp [finishSend,hp,afterSend,ReaderPos.due]
      · rfl
      · exact finishSend_aboutQueue true
    | _ => simp [hp,sendTarget] at hg

theorem reader_workMove (hf : Formed c s) {w : Switch N} {h : Fin N} {i : ReaderInput}
    (hok : Separate s (.switch (.reader h i))) (hfor : foreign (.reader h i) = true)
    (hm : ReaderMove s.switch h i w ev) :
    WorkMove c s (s.afterSwitch w (.reader h i)) ev := by
  have hstill := Still.of_reader hm
  cases hm with
  | create ts m targets hw hpos =>
    simp only [Separate,hpos] at hok
    simp only [Redispatch.afterSwitch,hpos]
    exact .created h m targets hpos hok
  | clear ts m g rest hw hpos =>
    simp only [Separate,hpos] at hok
    simp only [Redispatch.afterSwitch,hpos]
    exact .cleared h m g rest hpos hok
  | result ts m queue hw hgot hkind hres =>
    obtain ⟨w,hhand,rfl⟩ := hf.held_msg hgot hkind
    simp only [Redispatch.afterSwitch,hgot]
    exact .accepted h w queue hhand hres
  | resultRejected ts m f hw hgot hkind hres =>
    obtain ⟨w,hhand,rfl⟩ := hf.held_msg hgot hkind
    simp only [Redispatch.afterSwitch,hgot]
    exact .rejected h w f hhand hres
  | pullReady ts m slot hw hgot hkind hslot hready =>
    rw [afterSwitch_got hgot (hf.hand_none hgot (by simp [hkind]))]
    exact .still _ _ (takeReady_still hgot hslot hready)
  | sendNull ts g hw hg hconn =>
    rw [afterSwitch_sending hg]
    apply WorkMove.still
    apply hstill
    · simpa using afterSend_false_due hg
    · rfl
    · exact afterSendEvents_aboutQueue _
  | enterWrite ts g hw hg hconn hfree =>
    rw [afterSwitch_sending hg]
    apply WorkMove.still
    apply hstill
    · rfl
    · rfl
    · simp [Event.aboutQueue]
  | finishWrite ts g ok hw hg =>
    exact finishSend_workMove hok hw hg
  | recv m hpos => exact .still _ _ (hstill (by simp [hpos,ReaderPos.due]) rfl (by simp))
  | recvFail hpos => exact .still _ _ (hstill (by simp [hpos,ReaderPos.due]) rfl (by simp))
  | dispatchMismatch ts m hw hgot hkind hsize =>
    rw [afterSwitch_got hgot (hf.hand_none hgot (by simp [hkind]))]
    exact .still _ _ (hstill (by simp [hgot,ReaderPos.due]) rfl (by simp [Event.aboutQueue]))
  | dispatch ts m hw hgot hkind hsize =>
    rw [afterSwitch_got hgot (hf.hand_none hgot (by simp [hkind]))]
    exact .still _ _ (hstill (by simp [hgot,ReaderPos.due]) rfl (by simp))
  | pullNotReady ts m slot hw hgot hkind =>
    rw [afterSwitch_got hgot (hf.hand_none hgot (by simp [hkind]))]
    exact .still _ _ (hstill (by simp [hgot,ReaderPos.due]) rfl (by simp))
  | pullMissing ts m hw hgot hkind =>
    rw [afterSwitch_got hgot (hf.hand_none hgot (by simp [hkind]))]
    exact .still _ _ (hstill (by simp [hgot,ReaderPos.due]) rfl (by simp [Event.aboutQueue]))
  | ackSeen ts m hw hgot hkind =>
    rw [afterSwitch_got hgot (hf.hand_none hgot (by simp [hkind]))]
    exact .still _ _ (hstill (by simp [hgot,ReaderPos.due]) rfl (by simp))
  | finishMarked ts m hw hgot hkind =>
    rw [afterSwitch_got hgot (hf.hand_none hgot (by simp [hkind]))]
    exact .still _ _ (hstill (by simp [hgot,ReaderPos.due]) rfl (by simp))
  | finishLast ts m hw hgot hkind =>
    rw [afterSwitch_got hgot (hf.hand_none hgot (by simp [hkind]))]
    exact .still _ _ (hstill (by simp [hgot,ReaderPos.due]) rfl (by simp [Event.aboutQueue]))
  | ignored ts m hw hgot hkind =>
    have hother : m.header.kind ≠ some .expertResult := by
      intro hresult
      simpa using hkind .expertResult hresult
    rw [afterSwitch_got hgot (hf.hand_none hgot hother)]
    exact .still _ _ (hstill (by simp [hgot,ReaderPos.due]) rfl (by simp [Event.aboutQueue]))
  | enterRead ts hw hpos =>
    simp only [Redispatch.afterSwitch,hpos]
    exact .still _ _ (hstill (by simp [hpos,ReaderPos.due]) rfl (by simp [Event.aboutQueue]))
  | lookupMiss ts m id ids targets hw hpos =>
    simp only [Redispatch.afterSwitch,hpos]
    exact .still _ _ (hstill (by simp [hpos,ReaderPos.due]) rfl (by simp [Event.aboutQueue]))
  | close ts g rest hw hpos =>
    simp only [Redispatch.afterSwitch,hpos]
    exact .still _ _ (hstill (by simp [hpos,ReaderPos.due]) rfl (by simp [Event.aboutQueue]))
  | leave ts hw hpos =>
    simp only [Redispatch.afterSwitch,hpos]
    exact .still _ _ (hstill (by simp [hpos,ReaderPos.due]) rfl (by simp))
  | lookup ts m id ids targets g hw hpos =>
    simp only [Redispatch.afterSwitch,hpos]
    exact .still _ _ (hstill (by simp [hpos,ReaderPos.due]) rfl (by simp))
  | stopRunning ts rid hw hpos =>
    simp only [Redispatch.afterSwitch,hpos]
    exact .still _ _ (hstill (by simp [hpos,ReaderPos.due]) rfl (by simp))
  | skipClosed ts g rest hw hpos =>
    simp only [Redispatch.afterSwitch,hpos]
    exact .still _ _ (hstill (by simp [hpos,ReaderPos.due]) rfl (by simp))
  | null ts g rest hw hpos =>
    simp only [Redispatch.afterSwitch,hpos]
    exact .still _ _ (hstill (by simp [hpos,ReaderPos.due]) rfl (by simp))
  | endClosing ts hw hpos =>
    simp only [Redispatch.afterSwitch,hpos]
    exact .still _ _ (hstill (by simp [hpos,ReaderPos.due]) rfl (by simp))

/-- All that a step can do to the work in flight. -/
theorem redispatch_move (hf : Formed c s) {a : RedispatchAction N} (hok : Separate s a)
    (hs : redispatchStep c s a = some (s',ev)) : WorkMove c s s' ev := by
  cases redispatchStep_move hs with
  | @switch a w _ hfor hstep =>
    cases switchStep_move hstep with
    | accept g => exact .still _ _ ⟨rfl,rfl,rfl,rfl,rfl,rfl,fun _ => rfl,fun _ _ h => h,
        fun _ _ h _ => h,fun _ _ => rfl⟩
    | start g hpos =>
      refine .still _ _ ⟨rfl,rfl,rfl,rfl,rfl,rfl,?_,fun _ _ h => h,fun _ _ h _ => h,fun _ _ => rfl⟩
      intro h
      by_cases hg : h = g
      · subst hg
        simp [Redispatch.afterSwitch,hpos,ReaderPos.due]
      · simp [Redispatch.afterSwitch,hg]
    | reader h i _ _ hmove => exact reader_workMove hf hok hfor hmove
    | main _ _ hmove =>
      have hqueue := hmove.combineQueue
      refine .still _ _ ⟨rfl,rfl,rfl,rfl,rfl,rfl,?_,?_,?_,?_⟩
      · intro h
        exact congrArg ReaderPos.due (congrFun hmove.reader h)
      · intro k slot hk
        rwa [← hqueue]
      · intro k slot hk _
        change w.combineQueue k = some slot
        rwa [hqueue]
      · intro k r
        apply foldl_recordStep_of_not_aboutQueue
        cases hmove <;> simp [Event.aboutQueue]
  | compute ts hw => exact .computed _ _ ts hw
  | deliver hw hpos => exact .delivered _ _ hw hpos

theorem afterSend_not_got {ok : Bool} {h g : Fin N} {p : ReaderPos N}
    (hg : sendTarget h p = some g) (m : Msg) : afterSend ok p ≠ .got m := by
  cases p with
  | dispatching _ targets => cases targets <;> cases ok <;> simp [afterSend]
  | broadcasting _ rest => cases rest <;> simp_all [afterSend,sendTarget]
  | _ => simp_all [afterSend,sendTarget]

theorem ReaderMove.to_got {t t' : Switch N} {h : Fin N} {i : ReaderInput} {ev : List (Event N)}
    (hm : ReaderMove t h i t' ev) {m : Msg} (hgot : t'.reader h = .got m) : i = .recv m := by
  cases hm with
  | recv m' =>
    simp only [setReader_reader,if_true,ReaderPos.got.injEq] at hgot
    rw [hgot]
  | enterWrite ts g _ hg =>
    dsimp only at hgot
    rw [hgot] at hg
    cases hg
  | sendNull ts g _ hg =>
    simp only [setReader_reader,if_true] at hgot
    exact absurd hgot (afterSend_not_got hg m)
  | finishWrite ts g ok _ hg =>
    simp only [finishSend,setReader_reader,if_true] at hgot
    exact absurd hgot (afterSend_not_got hg m)
  | _ => simp [createSlot] at hgot

theorem ReaderMove.from_got {t t' : Switch N} {h : Fin N} {i : ReaderInput} {ev : List (Event N)}
    (hm : ReaderMove t h i t' ev) {m : Msg} (hgot : t.reader h = .got m) : ∃ ts, i = .go ts := by
  cases hm with
  | recv m' hpos => simp [hgot] at hpos
  | recvFail hpos => simp [hgot] at hpos
  | finishWrite ts g ok hw hg => simp [hgot,sendTarget] at hg
  | _ => exact ⟨_,rfl⟩

theorem Formed.hand_afterSwitch (hf : Formed c s) {w : Switch N} {h : Fin N} {i : ReaderInput}
    (hm : ReaderMove s.switch h i w ev) : (s.afterSwitch w (.reader h i)).hand h = none := by
  cases hhand : s.hand h with
  | some v =>
    have hgot := (hf.hand h v hhand).1
    obtain ⟨ts,rfl⟩ := hm.from_got hgot
    simp [Redispatch.afterSwitch,hgot]
  | none =>
    unfold Redispatch.afterSwitch
    split
    · rename_i h' ts heq
      cases heq
      split
      · exact hhand
      · exact Function.update_self h none s.hand
      · exact hhand
    · split <;> exact hhand
    · exact hhand

theorem afterSwitch_hand_ne {w : Switch N} {h g : Fin N} {i : ReaderInput} (hg : g ≠ h) :
    (s.afterSwitch w (.reader h i)).hand g = s.hand g := by
  unfold Redispatch.afterSwitch
  split
  · rename_i h' ts heq
    cases heq
    split
    · rfl
    · exact Function.update_of_ne hg _ _
    · rfl
  · split <;> rfl
  · rfl

theorem afterSwitch_results (w : Switch N) (a : SwitchAction N) :
    (s.afterSwitch w a).results = s.results := by
  unfold Redispatch.afterSwitch
  split
  · split <;> rfl
  · split <;> rfl
  · rfl

theorem afterSwitch_inputs (hfans : ∀ h, (s.switch.reader h).Fans) (w : Switch N)
    (a : SwitchAction N) (hin : ∀ x ∈ s.inputs, x.IsInput) :
    ∀ x ∈ (s.afterSwitch w a).inputs, x.IsInput := by
  unfold Redispatch.afterSwitch
  split
  · split <;> exact hin
  · rename_i h
    split
    · rename_i m g rest ts hpos hwriting
      intro x hx
      rcases List.mem_append.mp hx with hx | hx
      · exact hin x hx
      · obtain rfl := List.mem_singleton.mp hx
        have hsize := hfans h
        rw [hpos] at hsize
        exact ⟨hsize,ts,rfl⟩
    · exact hin
  · exact hin

theorem afterSwitch_hand_of_not_reader {w : Switch N} {a : SwitchAction N}
    (ha : ∀ h i, a ≠ .reader h i) : (s.afterSwitch w a).hand = s.hand := by
  cases a with
  | reader h i => exact absurd rfl (ha h i)
  | _ => rfl

theorem Formed.afterSwitch_idle (hf : Formed c s) (hfans : ∀ h, (s.switch.reader h).Fans)
    {w : Switch N} {a : SwitchAction N} (ha : ∀ h i, a ≠ .reader h i)
    (hgot : ∀ h m, w.reader h = .got m ↔ s.switch.reader h = .got m) :
    Formed c (s.afterSwitch w a) where
  inputs := afterSwitch_inputs hfans w a hf.inputs
  results := by
    rw [afterSwitch_results]
    exact hf.results
  hand h v hv := by
    rw [afterSwitch_hand_of_not_reader ha] at hv
    rw [afterSwitch_switch,hgot]
    exact hf.hand h v hv
  held h m hm hkind := by
    rw [afterSwitch_switch,hgot] at hm
    rw [afterSwitch_hand_of_not_reader ha]
    exact hf.held h m hm hkind

theorem Formed.afterSwitch_reader (hf : Formed c s) (hfans : ∀ h, (s.switch.reader h).Fans)
    {w : Switch N} {h : Fin N} {i : ReaderInput} (hfor : foreign (.reader h i) = true)
    (hm : ReaderMove s.switch h i w ev) : Formed c (s.afterSwitch w (.reader h i)) where
  inputs := afterSwitch_inputs hfans w _ hf.inputs
  results := by
    rw [afterSwitch_results]
    exact hf.results
  hand g v hv := by
    by_cases hg : g = h
    · subst hg
      rw [hf.hand_afterSwitch hm] at hv
      cases hv
    · rw [afterSwitch_hand_ne hg] at hv
      rw [afterSwitch_switch,hm.reader_of_ne hg]
      exact hf.hand g v hv
  held g m hgot hkind := by
    rw [afterSwitch_switch] at hgot
    by_cases hg : g = h
    · subst hg
      obtain rfl := hm.to_got hgot
      simp [foreign,hkind] at hfor
    · rw [hm.reader_of_ne hg] at hgot
      rw [afterSwitch_hand_ne hg]
      exact hf.held g m hgot hkind

theorem Work.IsInput.computed {w : Work N} (h : w.IsInput) (c : Config N) (ts : U64) :
    Work.IsResult c { w with msg := expertResultMsg (c.env w.expert) w.msg ts } := by
  obtain ⟨hsize,ts',heq⟩ := h
  exact ⟨hsize,ts',ts,by rw [heq]⟩

theorem Formed.computed (hf : Formed c s) {j : ℕ} {w : Work N} (hw : s.inputs[j]? = some w)
    (ts : U64) : Formed c
      { s with
        inputs := s.inputs.eraseIdx j
        results := s.results ++ [{ w with msg := expertResultMsg (c.env w.expert) w.msg ts }] } where
  inputs v hv := hf.inputs v (List.mem_of_mem_eraseIdx hv)
  results v hv := by
    rcases List.mem_append.mp hv with hv | hv
    · exact hf.results v hv
    · obtain rfl := List.mem_singleton.mp hv
      exact (hf.inputs w (List.mem_of_getElem? hw)).computed c ts
  hand := hf.hand
  held := hf.held

theorem Formed.delivered (hf : Formed c s) {j : ℕ} {w : Work N} (hw : s.results[j]? = some w) :
    Formed c
      { s with
        switch := s.switch.setReader w.expert (.got w.msg)
        results := s.results.eraseIdx j
        hand := Function.update s.hand w.expert (some w) } where
  inputs := hf.inputs
  results v hv := hf.results v (List.mem_of_mem_eraseIdx hv)
  hand h v hv := by
    by_cases hg : h = w.expert
    · subst hg
      simp only [Function.update_self,Option.some.injEq] at hv
      subst hv
      exact ⟨by simp,rfl,hf.results w (List.mem_of_getElem? hw)⟩
    · simp only [Function.update_of_ne hg] at hv
      simpa [hg] using hf.hand h v hv
  held h m hm hkind := by
    by_cases hg : h = w.expert
    · subst hg
      exact ⟨w,by simp⟩
    · simp only [setReader_reader,if_neg hg] at hm
      simpa [hg] using hf.held h m hm hkind

theorem Formed.step (hf : Formed c s) (hfans : ∀ h, (s.switch.reader h).Fans)
    {a : RedispatchAction N} (hs : redispatchStep c s a = some (s',ev)) : Formed c s' := by
  cases redispatchStep_move hs with
  | switch hfor hstep =>
    cases switchStep_move hstep with
    | accept g => exact hf.afterSwitch_idle hfans (by simp) (by simp)
    | start g hpos =>
      refine hf.afterSwitch_idle hfans (by simp) ?_
      intro h m
      by_cases hg : h = g
      · subst hg
        simp [hpos]
      · simp [hg]
    | reader h i _ _ hmove => exact hf.afterSwitch_reader hfans hfor hmove
    | main _ _ hmove =>
      refine hf.afterSwitch_idle hfans (by simp) ?_
      intro h m
      rw [hmove.reader]
  | compute ts hw => exact hf.computed hw ts
  | deliver hw hpos => exact hf.delivered hw

theorem formed_of_run {ok : Redispatch N → RedispatchAction N → Prop}
    (hr : RunOn (redispatchMachine c) ok s hist) : Formed c s := by
  induction hr with
  | start hi =>
    cases hi
    exact Formed.initial
  | next hr _ hs ih => exact ih.step (fans_of_run (redispatch_switch hr)) hs

end INA2A

import INA2A.SwitchResults

/-! What becomes of a result once its slot has been taken: `handle_combine_pull_req` erases the
slot before it sends the COMBINE_RESULT and does not put it back when the send fails. -/
namespace INA2A

open ByteBuffers BitWords EventMachine

variable {N : ℕ}

inductive ReplyEvent (N : ℕ)
  | took (h : Fin N) (slot : QueueSlot) (response : Msg)
  | failed (h : Fin N) (response : Msg)

def Msg.isResult (m : Msg) : Bool := decide (m.header.kind = some .combineResult)

/-- A ready slot is erased; `send_to_host` returns false for a COMBINE_RESULT. -/
def replyEvents (s : Switch N) : SwitchAction N → List (ReplyEvent N)
  | .reader h (.go ts) =>
    match s.reader h with
    | .got m =>
      if m.header.kind = some .combinePullReq then
        match s.combineQueue (makeKey m.header) with
        | some slot => if slot.ready then [.took h slot (combineResultMsg m.header slot ts)] else []
        | none => []
      else []
    | .replying response => if response.isResult && !s.conn h then [.failed h response] else []
    | _ => []
  | .reader h (.sent false) =>
    match s.reader h with
    | .replying response => if response.isResult then [.failed h response] else []
    | _ => []
  | _ => []

def switchFrom (s₀ : Switch N) : Machine (Switch N) (SwitchAction N) (Event N) where
  init s := s = s₀
  step := switchStep

/-- The result that the reader of `h` is about to send. -/
def returning (s : Switch N) (h : Fin N) : List Msg :=
  match s.reader h with
  | .replying response => if response.isResult then [response] else []
  | _ => []

def ReplyEvent.tookBy (h : Fin N) : ReplyEvent N → Option Msg
  | .took g _ response => if g = h then some response else none
  | .failed _ _ => none

def ReplyEvent.failedFor (h : Fin N) : ReplyEvent N → Option Msg
  | .took _ _ _ => none
  | .failed g response => if g = h then some response else none

def Event.resultTo (h : Fin N) : Event N → Option Msg
  | .toHost g m => if g = h ∧ m.isResult = true then some m else none
  | _ => none

/-- One step of a reader: what it holds and takes is what it sends, loses and holds after. -/
def Balanced (h : Fin N) (s : Switch N) (ev : List (Event N)) (obs : List (ReplyEvent N))
    (s' : Switch N) : Prop :=
  returning s h ++ obs.filterMap (ReplyEvent.tookBy h) =
    ev.filterMap (Event.resultTo h) ++ obs.filterMap (ReplyEvent.failedFor h) ++ returning s' h

theorem returning_of_reader {s s' : Switch N} {h : Fin N} (heq : s'.reader h = s.reader h) :
    returning s' h = returning s h := by simp only [returning,heq]

theorem Balanced.of_idle {h : Fin N} {s s' : Switch N} {ev : List (Event N)}
    {obs : List (ReplyEvent N)} (heq : s'.reader h = s.reader h)
    (hev : ∀ e ∈ ev, e.resultTo h = none) (hobs : ∀ o ∈ obs, o.tookBy h = none ∧ o.failedFor h = none) :
    Balanced h s ev obs s' := by
  rw [Balanced,returning_of_reader heq,List.filterMap_eq_nil_iff.mpr hev,
    List.filterMap_eq_nil_iff.mpr fun o ho => (hobs o ho).1,
    List.filterMap_eq_nil_iff.mpr fun o ho => (hobs o ho).2]
  simp

theorem Balanced.of_silent {h : Fin N} {s s' : Switch N} {ev : List (Event N)}
    {obs : List (ReplyEvent N)} (hobs : obs = []) (hbefore : returning s h = [])
    (hafter : returning s' h = []) (hev : ev.filterMap (Event.resultTo h) = []) :
    Balanced h s ev obs s' := by
  rw [Balanced,hobs,hbefore,hafter,hev]
  rfl

theorem isResult_combineResultMsg (header : MsgHeader) (slot : QueueSlot) (ts : U64) :
    (combineResultMsg header slot ts).isResult = true :=
  decide_eq_true (new_kind .combineResult slot.payloadLen)

theorem isResult_notReadyMsg (header : MsgHeader) (ts : U64) :
    (notReadyMsg header ts).isResult = false := by
  simp [Msg.isResult,notReadyMsg,MsgHeader.kind,MsgHeader.new]

theorem afterSendEvents_resultTo (h : Fin N) (p : ReaderPos N) :
    (afterSendEvents p).filterMap (Event.resultTo h) = [] := by
  cases p with
  | dispatching m targets => cases targets <;> rfl
  | _ => rfl

theorem sent_resultTo {r g h : Fin N} {p : ReaderPos N} {ts : U64} {m : Msg}
    (hg : sendTarget r p = some g)
    (hsent : Event.resultTo h (.toHost g (sendMsg ts p)) = some m) :
    h = r ∧ p = .replying m ∧ m.isResult = true := by
  simp only [Event.resultTo] at hsent
  split_ifs at hsent with hresult
  obtain ⟨rfl,hkind⟩ := hresult
  have hp := sendMsg_combineResult hg (of_decide_eq_true hkind)
  cases hsent
  rw [hp] at hg
  exact ⟨(Option.some.inj hg).symm,hp,hkind⟩

theorem createSlot_resultTo (s : Switch N) (r h : Fin N) (m : Msg) (targets : List (Fin N)) :
    (createSlot s r m targets).2.filterMap (Event.resultTo h) = [] := by
  unfold createSlot
  dsimp only
  split_ifs <;> rfl

theorem clearedEvents_resultTo (queue : CombineQueue) (key : CombineKey) (rank : ℕ) (h : Fin N) :
    (clearedEvents (N:=N) queue key rank).filterMap (Event.resultTo h) = [] := by
  unfold clearedEvents
  split
  · rfl
  · split_ifs <;> rfl

theorem returning_afterSend {s s' : Switch N} {h g : Fin N} {ok : Bool}
    (hg : sendTarget h (s.reader h) = some g)
    (hafter : s'.reader h = afterSend ok (s.reader h)) : returning s' h = [] := by
  unfold returning
  rw [hafter]
  split
  · rename_i response heq
    exact absurd heq (afterSend_not_replying ok hg response)
  · rfl

theorem resultTo_sent {s : Switch N} {h g : Fin N} {ts : U64}
    (hg : sendTarget h (s.reader h) = some g) :
    [Event.toHost g (sendMsg ts (s.reader h))].filterMap (Event.resultTo h) = returning s h := by
  cases hp : s.reader h with
  | replying response =>
    rw [hp] at hg
    obtain rfl := Option.some.inj hg
    simp only [returning,hp,sendMsg,Event.resultTo,List.filterMap_cons,List.filterMap_nil,true_and]
    split_ifs <;> rfl
  | _ =>
    have hnone : Event.resultTo h (.toHost g (sendMsg ts (s.reader h))) = none := by
      rw [← Option.not_isSome_iff_eq_none,Option.isSome_iff_exists]
      rintro ⟨m,hm⟩
      have := (sent_resultTo hg hm).2.1
      rw [hp] at this
      cases this
    rw [hp] at hnone
    simp only [returning,hp,List.filterMap_cons,hnone,List.filterMap_nil]

theorem replyEvents_failed {s : Switch N} {h g : Fin N} {i : ReaderInput}
    (hg : sendTarget h (s.reader h) = some g)
    (hi : i = .sent false ∨ ∃ ts, i = .go ts ∧ s.conn g = false) :
    replyEvents s (.reader h i) = (returning s h).map (.failed h) := by
  cases hp : s.reader h with
  | replying response =>
    rw [hp] at hg
    obtain rfl := Option.some.inj hg
    rcases hi with rfl | ⟨ts,rfl,hconn⟩
    · simp only [replyEvents,returning,hp]
      split_ifs <;> rfl
    · simp only [replyEvents,returning,hp,hconn,Bool.not_false,Bool.and_true]
      split_ifs <;> rfl
  | dispatching m targets =>
    rcases hi with rfl | ⟨ts,rfl,hconn⟩ <;> simp [replyEvents,returning,hp]
  | broadcasting runId targets =>
    rcases hi with rfl | ⟨ts,rfl,hconn⟩ <;> simp [replyEvents,returning,hp]
  | _ => simp [hp,sendTarget] at hg

theorem Balanced.failed {s s' : Switch N} {h g : Fin N}
    (hg : sendTarget h (s.reader h) = some g)
    (hafter : s'.reader h = afterSend false (s.reader h)) :
    Balanced h s (afterSendEvents (s.reader h)) ((returning s h).map (.failed h)) s' := by
  have htook : ((returning s h).map (ReplyEvent.failed h)).filterMap (ReplyEvent.tookBy h) = [] := by
    simp [List.filterMap_map,Function.comp_def,ReplyEvent.tookBy]
  have hfailed : ((returning s h).map (ReplyEvent.failed h)).filterMap (ReplyEvent.failedFor h) =
      returning s h := by
    simp [List.filterMap_map,Function.comp_def,ReplyEvent.failedFor]
  rw [Balanced,htook,hfailed,afterSendEvents_resultTo,returning_afterSend hg hafter]
  simp

theorem ReaderMove.balanced {s s' : Switch N} {h : Fin N} {i : ReaderInput} {ev : List (Event N)}
    (hm : ReaderMove s h i s' ev) : Balanced h s ev (replyEvents s (.reader h i)) s' := by
  cases hm with
  | pullReady ts m slot hw hgot hkind hslot hready =>
    have hobs : replyEvents s (.reader h (.go ts)) =
        [.took h slot (combineResultMsg m.header slot ts)] := by
      simp [replyEvents,hgot,hkind,hslot,hready]
    rw [hobs]
    simp [Balanced,returning,hgot,isResult_combineResultMsg,ReplyEvent.tookBy,ReplyEvent.failedFor,
      Event.resultTo,List.filterMap_cons]
  | pullNotReady ts m slot hw hgot hkind hslot hready =>
    apply Balanced.of_silent
    · simp [replyEvents,hgot,hkind,hslot,hready]
    · simp [returning,hgot]
    · simp [returning,isResult_notReadyMsg]
    · rfl
  | pullMissing ts m hw hgot hkind hslot =>
    apply Balanced.of_silent
    · simp [replyEvents,hgot,hkind,hslot]
    · simp [returning,hgot]
    · simp [returning,isResult_notReadyMsg]
    · rfl
  | sendNull ts g hw hg hconn =>
    rw [replyEvents_failed hg (.inr ⟨ts,rfl,hconn⟩)]
    exact .failed hg (by simp)
  | enterWrite ts g hw hg hconn hfree =>
    have hobs : replyEvents s (.reader h (.go ts)) = [] := by
      cases hp : s.reader h with
      | replying response =>
        rw [hp] at hg
        obtain rfl := Option.some.inj hg
        simp [replyEvents,hp,hconn]
      | _ => simp_all [replyEvents,sendTarget]
    rw [hobs]
    apply Balanced.of_idle rfl
    · simp [Event.resultTo]
    · simp
  | finishWrite ts g ok hw hg =>
    have hafter : (finishSend s h g ts ok).1.reader h = afterSend ok (s.reader h) := by
      simp [finishSend]
    cases ok with
    | true =>
      have hobs : replyEvents s (.reader h (.sent true)) = [] := rfl
      have hsent : (finishSend s h g ts true).2.filterMap (Event.resultTo h) = returning s h := by
        rw [finishSend,if_pos rfl,List.filterMap_append,resultTo_sent hg,afterSendEvents_resultTo,
          List.append_nil]
      rw [hobs,Balanced,hsent,returning_afterSend hg hafter]
      simp
    | false =>
      rw [replyEvents_failed hg (.inl rfl)]
      exact .failed hg hafter
  | create ts m targets hw hpos =>
    exact .of_silent (by simp [replyEvents,hpos]) (by simp [returning,hpos])
      (by simp [returning,createSlot]) (createSlot_resultTo ..)
  | clear ts m g rest hw hpos =>
    exact .of_silent (by simp [replyEvents,hpos]) (by simp [returning,hpos]) (by simp [returning])
      (clearedEvents_resultTo ..)
  | ignored ts m hw hpos hkind =>
    have hother : m.header.kind ≠ some .combinePullReq := by
      intro hpull
      rw [hpull] at hkind
      simpa using hkind .combinePullReq rfl
    apply Balanced.of_silent
    · simp [replyEvents,hpos,hother]
    · simp [returning,hpos]
    · simp [returning]
    · rfl
  | _ =>
    apply Balanced.of_silent <;> simp_all [replyEvents,returning,Event.resultTo,List.filterMap_cons]

theorem ReaderMove.resultTo_of_ne {s s' : Switch N} {r h : Fin N} {i : ReaderInput}
    {ev : List (Event N)} (hm : ReaderMove s r i s' ev) (hne : h ≠ r) :
    ∀ e ∈ ev, e.resultTo h = none := by
  have hafter := List.filterMap_eq_nil_iff.mp (afterSendEvents_resultTo h (s.reader r))
  cases hm with
  | create ts m targets => exact List.filterMap_eq_nil_iff.mp (createSlot_resultTo ..)
  | clear ts m g rest => exact List.filterMap_eq_nil_iff.mp (clearedEvents_resultTo ..)
  | sendNull ts g => exact hafter
  | finishWrite ts g ok hw hg =>
    intro e he
    rcases List.mem_append.mp he with he | he
    · cases ok with
      | false => simp at he
      | true =>
        obtain rfl := List.mem_singleton.mp he
        rw [← Option.not_isSome_iff_eq_none,Option.isSome_iff_exists]
        rintro ⟨m,hm⟩
        exact hne (sent_resultTo hg hm).1
    · exact hafter e he
  | _ => simp [Event.resultTo]

theorem replyEvents_of_ne {s : Switch N} {r h : Fin N} {i : ReaderInput} (hne : h ≠ r) :
    ∀ o ∈ replyEvents s (.reader r i), o.tookBy h = none ∧ o.failedFor h = none := by
  intro o ho
  unfold replyEvents at ho
  split at ho
  · rename_i ts heq
    cases heq
    split at ho
    · split_ifs at ho
      · split at ho
        · split_ifs at ho
          · obtain rfl := List.mem_singleton.mp ho
            simp [ReplyEvent.tookBy,ReplyEvent.failedFor,Ne.symm hne]
          · cases ho
        · cases ho
      · cases ho
    · split_ifs at ho
      · obtain rfl := List.mem_singleton.mp ho
        simp [ReplyEvent.tookBy,ReplyEvent.failedFor,Ne.symm hne]
      · cases ho
    · cases ho
  · rename_i heq
    cases heq
    split at ho
    · split_ifs at ho
      · obtain rfl := List.mem_singleton.mp ho
        simp [ReplyEvent.tookBy,ReplyEvent.failedFor,Ne.symm hne]
      · cases ho
    · cases ho
  · cases ho

theorem switchStep_balanced {s s' : Switch N} {a : SwitchAction N} {ev : List (Event N)}
    (hs : switchStep s a = some (s',ev)) (h : Fin N) : Balanced h s ev (replyEvents s a) s' := by
  cases switchStep_move hs with
  | accept g => exact .of_idle rfl (by simp) (by simp [replyEvents])
  | start g hstart =>
    by_cases hg : h = g
    · subst hg
      exact .of_silent rfl (by simp [returning,hstart]) (by simp [returning]) rfl
    · exact .of_idle (by simp [hg]) (by simp) (by simp [replyEvents])
  | reader r i _ _ hmove =>
    by_cases hr : h = r
    · subst hr
      exact hmove.balanced
    · exact .of_idle (hmove.reader_of_ne hr) (hmove.resultTo_of_ne hr) (replyEvents_of_ne hr)
  | main _ _ hmove =>
    refine .of_idle (by rw [hmove.reader]) ?_ (by simp [replyEvents])
    cases hmove <;> simp [Event.resultTo]

variable {s₀ s : Switch N} {hist : List (Event N ⊕ ReplyEvent N)}

/-- The results that the reader of `h` has erased from the queue, in order. -/
def takenBy (h : Fin N) (hist : List (Event N ⊕ ReplyEvent N)) : List Msg :=
  (seen hist).filterMap (ReplyEvent.tookBy h)

/-- Those for which `send_to_host` returned false. -/
def lostFor (h : Fin N) (hist : List (Event N ⊕ ReplyEvent N)) : List Msg :=
  (seen hist).filterMap (ReplyEvent.failedFor h)

def sentTo (h : Fin N) (hist : List (Event N ⊕ ReplyEvent N)) : List Msg :=
  (shown hist).filterMap (Event.resultTo h)

/-- Every result erased by the reader of `h` has been sent, in the order of erasure, but for the
one whose handler has not returned yet. -/
def ResultsKept (s₀ s : Switch N) (hist : List (Event N ⊕ ReplyEvent N)) (h : Fin N) : Prop :=
  returning s₀ h ++ takenBy h hist = sentTo h hist ++ returning s h

theorem results_counted (hr : Run ((switchFrom s₀).watch replyEvents) s hist) (h : Fin N) :
    (returning s₀ h ++ takenBy h hist).length =
      (sentTo h hist).length + (lostFor h hist).length + (returning s h).length ∧
    (lostFor h hist = [] → ResultsKept s₀ s hist h) := by
  induction hr with
  | start hi =>
    cases hi
    simp [ResultsKept,takenBy,lostFor,sentTo,seen,shown]
  | @next t t' hist ev a _ _ hs ih =>
    obtain ⟨hlength,hkept⟩ := ih
    obtain ⟨hstep,hobs⟩ := watch_step hs
    have hbalanced := switchStep_balanced hstep h
    rw [Balanced,← hobs] at hbalanced
    have htaken : takenBy h (hist ++ ev) =
        takenBy h hist ++ (seen ev).filterMap (ReplyEvent.tookBy h) := by
      rw [takenBy,seen_append,List.filterMap_append,takenBy]
    have hlost : lostFor h (hist ++ ev) =
        lostFor h hist ++ (seen ev).filterMap (ReplyEvent.failedFor h) := by
      rw [lostFor,seen_append,List.filterMap_append,lostFor]
    have hsent : sentTo h (hist ++ ev) =
        sentTo h hist ++ (shown ev).filterMap (Event.resultTo h) := by
      rw [sentTo,shown_append,List.filterMap_append,sentTo]
    constructor
    · have hcount := congrArg List.length hbalanced
      rw [htaken,hlost,hsent]
      simp only [List.length_append] at hlength hcount ⊢
      omega
    · intro hnone
      rw [hlost,List.append_eq_nil_iff] at hnone
      obtain ⟨hnone,hnow⟩ := hnone
      rw [hnow,List.append_nil] at hbalanced
      have hbefore := hkept hnone
      unfold ResultsKept at hbefore ⊢
      rw [htaken,hsent,← List.append_assoc,hbefore,List.append_assoc,hbalanced,List.append_assoc]

theorem switchStep_removed {s s' : Switch N} {a : SwitchAction N} {ev : List (Event N)}
    (hs : switchStep s a = some (s',ev)) {k : CombineKey} {slot : QueueSlot}
    (hslot : s.combineQueue k = some slot) (hgone : s'.combineQueue k = none) :
    ∃ h response, replyEvents s a = [.took h slot response] ∧ slot.ready = true ∧
      makeKey response.header = k ∧ response.payload = slot.data := by
  have hkept : s'.combineQueue k ≠ s.combineQueue k := by
    rw [hslot,hgone]
    simp
  cases switchStep_move hs with
  | accept g => exact absurd rfl hkept
  | start g => exact absurd rfl hkept
  | main _ _ hmove => exact absurd (congrFun hmove.combineQueue k) hkept
  | reader h i _ _ hmove =>
    cases hmove with
    | pullReady ts m slot' hw hgot hkind hslot' hready =>
      have hk : k = makeKey m.header := by
        by_contra hne
        exact hkept (Function.update_of_ne hne _ _)
      subst hk
      obtain rfl := Option.some.inj (hslot'.symm.trans hslot)
      refine ⟨h,combineResultMsg m.header slot' ts,?_,hready,rfl,rfl⟩
      simp [replyEvents,hgot,hkind,hslot',hready]
    | result ts m queue hw hgot hkind hok =>
      obtain ⟨slot',-,-,-,rfl⟩ := handleExpertResult_ok hok
      dsimp only at hgone
      rw [Function.update_apply] at hgone
      split_ifs at hgone
      rw [hslot] at hgone
      cases hgone
    | create ts m targets =>
      simp only [createSlot,Function.update_apply] at hgone
      split_ifs at hgone
      rw [hslot] at hgone
      cases hgone
    | clear ts m g rest =>
      dsimp only [clearTarget] at hgone
      cases hentry : s.combineQueue (makeKey m.header) with
      | none =>
        rw [hentry] at hgone
        exact absurd (hslot.symm.trans hgone) (by simp)
      | some entry =>
        rw [hentry] at hgone
        dsimp only at hgone
        rw [Function.update_apply] at hgone
        split_ifs at hgone
        rw [hslot] at hgone
        cases hgone
    | _ => exact absurd rfl hkept

/-- From any state and under any interleaving, slots leave the queue only when their result is
taken, and every result taken is sent exactly when no send of a COMBINE_RESULT fails. -/
theorem results_kept_iff (hr : Run ((switchFrom s₀).watch replyEvents) s hist) :
    (∀ h, ResultsKept s₀ s hist h ↔ lostFor h hist = []) ∧
    ∀ k slot a s' ev, s.combineQueue k = some slot → switchStep s a = some (s',ev) →
      s'.combineQueue k = none → ∃ h response, replyEvents s a = [.took h slot response] ∧
        slot.ready = true ∧ makeKey response.header = k ∧ response.payload = slot.data := by
  refine ⟨?_,fun k slot a s' ev hslot hs hgone => switchStep_removed hs hslot hgone⟩
  intro h
  obtain ⟨hlength,hkept⟩ := results_counted hr h
  refine ⟨?_,hkept⟩
  intro hall
  rw [hall,List.length_append] at hlength
  apply List.eq_nil_of_length_eq_zero
  omega

/-- Both experts answer, and host 0 pulls. -/
def sampleTaken : List (SwitchAction 2) :=
  sampleStart ++ sampleCreate ++
  [.reader 0 (.go 0),.reader 0 (.sent true),.reader 0 (.go 0),.reader 0 (.sent true),
    .reader 0 (.go 0),.reader 0 (.sent true),.reader 0 (.go 0),.reader 1 (.recv (sampleResult 1)),
    .reader 1 (.go 0),.reader 0 (.recv (sampleResult 0)),.reader 0 (.go 0),.reader 0 (.go 0),
    .reader 0 (.recv samplePull),.reader 0 (.go 0),.reader 0 (.go 0)]

/-- The send of the result fails: the handler has returned, the slot with its data is gone and
nothing was sent. -/
theorem result_lost : ∃ (s : Switch 2) (hist : List (Event 2 ⊕ ReplyEvent 2)),
    Run ((switchFrom Switch.initial).watch replyEvents) s hist ∧
    ¬ResultsKept Switch.initial s hist 0 ∧
    s.combineQueue (makeKey samplePull.header) = none ∧ returning s 0 = [] ∧ sentTo 0 hist = [] ∧
    (takenBy 0 hist).map (fun m => m.payload.get 0) = [20] := by
  obtain ⟨s,hist,hrun,hp⟩ := exists_run_of_replay ((switchFrom Switch.initial).watch replyEvents)
    (fun _ _ => true) Switch.initial (sampleTaken ++ [.reader 0 (.sent false)])
    (fun s hist => (s.combineQueue (makeKey samplePull.header)).isNone && (returning s 0).isEmpty &&
      (sentTo 0 hist).isEmpty && ((takenBy 0 hist).map (fun m => m.payload.get 0) = [20] : Bool))
    rfl (by decide +kernel)
  simp only [Bool.and_eq_true,Option.isNone_iff_eq_none,List.isEmpty_iff,decide_eq_true_eq] at hp
  obtain ⟨⟨⟨hgone,hreturning⟩,hsent⟩,htaken⟩ := hp
  refine ⟨s,hist,hrun.run,?_,hgone,hreturning,hsent,htaken⟩
  intro hkept
  rw [ResultsKept,hsent,hreturning] at hkept
  rw [(List.append_eq_nil_iff.mp hkept).2] at htaken
  cases htaken

theorem results_kept_sample : ∃ (s : Switch 2) (hist : List (Event 2 ⊕ ReplyEvent 2)),
    Run ((switchFrom Switch.initial).watch replyEvents) s hist ∧
    ResultsKept Switch.initial s hist 0 ∧
    (sentTo 0 hist).map (fun m => m.payload.get 0) = [20] := by
  obtain ⟨s,hist,hrun,hp⟩ := exists_run_of_replay ((switchFrom Switch.initial).watch replyEvents)
    (fun _ _ => true) Switch.initial (sampleTaken ++ [.reader 0 (.sent true)])
    (fun _ hist => (lostFor 0 hist).isEmpty &&
      ((sentTo 0 hist).map (fun m => m.payload.get 0) = [20] : Bool)) rfl (by decide +kernel)
  simp only [Bool.and_eq_true,List.isEmpty_iff,decide_eq_true_eq] at hp
  exact ⟨s,hist,hrun.run,((results_kept_iff hrun.run).1 0).mpr hp.1,hp.2⟩

end INA2A

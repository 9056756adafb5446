import INA2A.SwitchSlots

/-! Host connections that fail.  A reader that exits because `sr_read` failed does nothing
about the slots waiting for its host; only a failed EXPERT_INPUT send clears their bit. -/
namespace INA2A

open ByteBuffers BitWords EventMachine

variable {N : ℕ}

/-- The call of `handle_dispatch_token` on `k` at this position has still to send the
EXPERT_INPUT of host `h`, or to clear its bit because that send has failed. -/
def Owes (k : CombineKey) (h : Fin N) : ReaderPos N → Prop
  | .dispatching m targets => makeKey m.header = k ∧ h ∈ targets
  | .clearing m g rest => makeKey m.header = k ∧ (h = g ∨ h ∈ rest)
  | _ => False

def ReaderPos.inDispatch : ReaderPos N → Bool
  | .looking _ _ _ | .dispatching _ _ | .clearing _ _ _ => true
  | _ => false

theorem Owes.inDispatch {k : CombineKey} {h : Fin N} {p : ReaderPos N} (ho : Owes k h p) :
    p.inDispatch = true := by
  cases p <;> simp_all [Owes,ReaderPos.inDispatch]

/-- The slot of `k` waits for host `h`. -/
def Waits (queue : CombineQueue) (k : CombineKey) (h : Fin N) : Prop :=
  ∃ slot, queue k = some slot ∧ slot.pendingBitmap.getLsbD h = true

/-- A failing receive finds every slot that waits for the host still owed its send, and a
send that succeeds towards a failed host does not leave its slot waiting for it. -/
def FailureCovered (s : Switch N) : SwitchAction N → Prop
  | .reader h .recvFail => ∀ k, Waits s.combineQueue k h → ∃ r, Owes k h (s.reader r)
  | .reader r (.sent true) => ∀ m g rest, s.reader r = .dispatching m (g::rest) →
      s.reader g = .exited true → Waits s.combineQueue (makeKey m.header) g →
      g ∈ rest ∨ ∃ r', r' ≠ r ∧ Owes (makeKey m.header) g (s.reader r')
  | _ => True

/-- Whoever waits for a failed host is still owed a send by some dispatch call. -/
def WaitsOwed (s : Switch N) : Prop :=
  ∀ h, s.reader h = .exited true → ∀ k, Waits s.combineQueue k h → ∃ r, Owes k h (s.reader r)

theorem Waits.of_update_ne {queue : CombineQueue} {k k' : CombineKey} {o : Option QueueSlot}
    {h : Fin N} (hk : k' ≠ k) (hw : Waits (Function.update queue k o) k' h) :
    Waits queue k' h := by
  obtain ⟨slot,hslot,hbit⟩ := hw
  rw [Function.update_of_ne hk] at hslot
  exact ⟨slot,hslot,hbit⟩

theorem Waits.of_result {queue queue' : CombineQueue} {m : Msg}
    (hm : handleExpertResult queue m = .ok queue') {k : CombineKey} {h : Fin N}
    (hw : Waits queue' k h) : Waits queue k h := by
  obtain ⟨old,hold,-,-,rfl⟩ := handleExpertResult_ok hm
  by_cases hk : k = makeKey m.header
  · subst hk
    obtain ⟨slot,hslot,hbit⟩ := hw
    simp only [Function.update_self,Option.some.injEq] at hslot
    subst hslot
    simp only [aggregate_pendingBitmap,getLsbD_clear,Bool.and_eq_true] at hbit
    exact ⟨old,hold,hbit.1⟩
  · exact hw.of_update_ne hk

theorem Waits.of_clear {queue : CombineQueue} {k k' : CombineKey} {g h : Fin N}
    (hw : Waits (clearTarget queue k g) k' h) : Waits queue k' h ∧ (k' = k → h ≠ g) := by
  unfold clearTarget at hw
  split at hw
  · rename_i hnone
    refine ⟨hw,?_⟩
    rintro rfl
    obtain ⟨slot,hslot,-⟩ := hw
    rw [hnone] at hslot
    cases hslot
  · rename_i old hold
    by_cases hk : k' = k
    · subst hk
      obtain ⟨slot,hslot,hbit⟩ := hw
      simp only [Function.update_self,Option.some.injEq] at hslot
      subst hslot
      simp only [clearPending_pendingBitmap,getLsbD_clear,Bool.and_eq_true,decide_eq_true_eq] at hbit
      exact ⟨⟨old,hold,hbit.1⟩,fun _ hgh => hbit.2 (by rw [hgh])⟩
    · exact ⟨hw.of_update_ne hk,fun h => absurd h hk⟩

theorem Waits.of_create {queue : CombineQueue} {header : MsgHeader} {targets : List (Fin N)}
    {k : CombineKey} {h : Fin N}
    (hw : Waits (Function.update queue (makeKey header)
      (some (newSlot header (expectedBitmap targets)))) k h) :
    (k = makeKey header ∧ h ∈ targets) ∨ (k ≠ makeKey header ∧ Waits queue k h) := by
  by_cases hk : k = makeKey header
  · subst hk
    obtain ⟨slot,hslot,hbit⟩ := hw
    simp only [Function.update_self,Option.some.injEq] at hslot
    subst hslot
    simp only [newSlot,expectedBitmap,getLsbD_ofBits,Bool.and_eq_true,decide_eq_true_eq,
      List.mem_map] at hbit
    obtain ⟨⟨g,hg,he⟩,-⟩ := hbit
    exact Or.inl ⟨rfl,Fin.ext he ▸ hg⟩
  · exact Or.inr ⟨hk,hw.of_update_ne hk⟩

theorem owed_of_step {s s' : Switch N} {r : Fin N} {i : ReaderInput} {ev : List (Event N)}
    (hm : ReaderMove s r i s' ev) {k : CombineKey} {h : Fin N}
    (hkeep : Owes k h (s.reader r) → Owes k h (s'.reader r))
    (ho : ∃ r, Owes k h (s.reader r)) : ∃ r, Owes k h (s'.reader r) := by
  obtain ⟨r',hr'⟩ := ho
  by_cases hne : r' = r
  · subst hne
    exact ⟨r',hkeep hr'⟩
  · exact ⟨r',by rwa [hm.reader_of_ne hne]⟩

theorem owes_afterSend_false {k : CombineKey} {h r g : Fin N} {p : ReaderPos N}
    (hg : sendTarget r p = some g) (ho : Owes k h p) : Owes k h (afterSend false p) := by
  cases p with
  | dispatching m targets =>
    cases targets with
    | nil => simp [Owes] at ho
    | cons g targets => simpa [Owes,afterSend] using ho
  | _ => simp_all [sendTarget,Owes]

theorem afterSend_not_exited {ok : Bool} {r g : Fin N} {p : ReaderPos N}
    (hg : sendTarget r p = some g) (failed : Bool) : afterSend ok p ≠ .exited failed := by
  cases p with
  | dispatching _ targets => cases targets <;> cases ok <;> simp [afterSend]
  | broadcasting _ rest => cases rest <;> simp_all [afterSend,sendTarget]
  | _ => simp_all [afterSend,sendTarget]

theorem exited_of_step {s s' : Switch N} {r : Fin N} {i : ReaderInput} {ev : List (Event N)}
    (hm : ReaderMove s r i s' ev) (hi : i ≠ .recvFail) {h : Fin N}
    (hx : s'.reader h = .exited true) : s.reader h = .exited true := by
  by_cases hr : h = r
  · subst hr
    cases hm with
    | recvFail => exact absurd rfl hi
    | enterWrite => exact hx
    | sendNull ts g _ hg =>
      simp only [setReader_reader,if_true] at hx
      exact absurd hx (afterSend_not_exited hg true)
    | finishWrite ts g ok _ hg =>
      simp only [finishSend,setReader_reader,if_true] at hx
      exact absurd hx (afterSend_not_exited hg true)
    | _ => simp [createSlot] at hx
  · rwa [hm.reader_of_ne hr] at hx

theorem WaitsOwed.readerMove {s s' : Switch N} {r : Fin N} {i : ReaderInput}
    {ev : List (Event N)} (hI : WaitsOwed s) (hok : FailureCovered s (.reader r i))
    (hm : ReaderMove s r i s' ev) : WaitsOwed s' := by
  intro h hx k hw
  by_cases hi : i = .recvFail
  · subst hi
    cases hm with
    | recvFail hp =>
      have ho : ∃ r', Owes k h (s.reader r') := by
        by_cases hr : h = r
        · subst hr
          exact hok k hw
        · simp only [setReader_reader,if_neg hr] at hx
          exact hI h hx k hw
      exact owed_of_step (.recvFail hp) (by simp [Owes,hp]) ho
  have hx' := exited_of_step hm hi hx
  have hidle : ¬Owes k h (s.reader r) → Waits s.combineQueue k h →
      ∃ r', Owes k h (s'.reader r') :=
    fun hno hw' => owed_of_step hm (fun ho => absurd ho hno) (hI h hx' k hw')
  cases hm with
  | result ts m queue _ hp _ hq => exact hidle (by simp [Owes,hp]) (hw.of_result hq)
  | pullReady ts m slot _ hp =>
    have hk' : k ≠ makeKey m.header := by
      rintro rfl
      obtain ⟨slot',hslot',-⟩ := hw
      simp at hslot'
    exact hidle (by simp [Owes,hp]) (hw.of_update_ne hk')
  | create ts m targets _ hp =>
    rcases hw.of_create with ⟨hk,hmem⟩ | ⟨hk,hw'⟩
    · exact ⟨r,by simp [createSlot,Owes,hk,hmem]⟩
    · exact hidle (by simp [Owes,hp]) hw'
  | clear ts m g rest hwr hp =>
    obtain ⟨hw',hne⟩ := hw.of_clear
    refine owed_of_step (.clear ts m g rest hwr hp) ?_ (hI h hx' k hw')
    simp only [hp,Owes,setReader_reader,if_true]
    rintro ⟨rfl,hg | hmem⟩
    · exact absurd hg (hne rfl)
    · exact ⟨rfl,hmem⟩
  | sendNull ts g hwr hg hc =>
    refine owed_of_step (.sendNull ts g hwr hg hc) ?_ (hI h hx' k hw)
    simpa using owes_afterSend_false hg
  | finishWrite ts g ok hwr hg =>
    have ho := hI h hx' k hw
    have hmove := ReaderMove.finishWrite ts g ok hwr hg
    cases ok with
    | false =>
      refine owed_of_step hmove ?_ ho
      simpa [finishSend] using owes_afterSend_false hg
    | true =>
      by_cases hown : Owes k h (s.reader r) ∧ ¬Owes k h (afterSend true (s.reader r))
      -- the debt just paid was the reader's own, so the guard names another debtor
      · obtain ⟨hown,hlost⟩ := hown
        cases hp : s.reader r with
        | dispatching m targets =>
          cases targets with
          | nil => simp [hp,Owes] at hown
          | cons g' rest =>
            simp only [hp,Owes] at hown
            obtain ⟨rfl,hmem⟩ := hown
            have hlost : h ∉ rest := by simpa [hp,afterSend,Owes] using hlost
            have hg' : h = g' := by simpa [hlost] using hmem
            subst hg'
            rcases hok m h rest hp hx' hw with hin | ⟨r',hne,hr'⟩
            · exact absurd hin hlost
            · exact ⟨r',by rwa [hmove.reader_of_ne hne]⟩
        | clearing m g' rest => simp [hp,sendTarget] at hg
        | _ => simp [hp,Owes] at hown
      · refine owed_of_step hmove ?_ ho
        simpa [finishSend] using fun h => by_contra fun h' => hown ⟨h,h'⟩
  | enterWrite ts g => exact hI h hx' k hw
  | recvFail => exact absurd rfl hi
  | _ => exact hidle (by simp_all [Owes]) hw

theorem WaitsOwed.step {s s' : Switch N} {a : SwitchAction N} {ev : List (Event N)}
    (hI : WaitsOwed s) (hok : FailureCovered s a) (hm : SwitchMove s a s' ev) : WaitsOwed s' := by
  cases hm with
  | accept g => exact hI
  | start h hp =>
    intro g hx k hw
    simp only [setReader_reader] at hx
    split_ifs at hx
    obtain ⟨r,hr⟩ := hI g hx k hw
    refine ⟨r,?_⟩
    have hne : r ≠ h := by
      rintro rfl
      simp [hp,Owes] at hr
    simpa [hne] using hr
  | reader r i _ _ hmove => exact hI.readerMove hok hmove
  | main _ _ hmove =>
    intro h hx k hw
    rw [hmove.reader] at hx ⊢
    rw [hmove.combineQueue] at hw
    exact hI h hx k hw

theorem waitsOwed_of_run {s : Switch N} {hist : List (Event N)}
    (hrun : RunOn (switchMachine N) FailureCovered s hist) : WaitsOwed s := by
  refine hrun.invariant (P := fun s _ => WaitsOwed s) ?_ ?_
  · rintro s rfl h hx
    simp [Switch.initial] at hx
  · intro s hist a s' ev _ ih hok hs
    exact ih.step hok (switchStep_move hs)

/-- An uncovered step leaves a slot waiting for a failed host that nobody will send to. -/
theorem uncovered_step {s s' : Switch N} {a : SwitchAction N} {ev : List (Event N)}
    (hm : SwitchMove s a s' ev) (hbad : ¬FailureCovered s a) :
    ∃ h k, s'.reader h = .exited true ∧ Waits s'.combineQueue k h ∧
      ∀ r, ¬Owes k h (s'.reader r) := by
  cases hm with
  | accept g => exact absurd trivial hbad
  | start h => exact absurd trivial hbad
  | main => exact absurd trivial hbad
  | reader r i _ _ hmove =>
    cases i with
    | go ts => exact absurd trivial hbad
    | recv m => exact absurd trivial hbad
    | recvFail =>
      simp only [FailureCovered,not_forall] at hbad
      obtain ⟨k,hw,hno⟩ := hbad
      cases hmove with
      | recvFail hp =>
        refine ⟨r,k,by simp,hw,?_⟩
        intro r' ho
        by_cases hr : r' = r
        · subst hr
          simp [Owes] at ho
        · simp only [setReader_reader,if_neg hr] at ho
          exact hno ⟨r',ho⟩
    | sent ok =>
      cases ok with
      | false => exact absurd trivial hbad
      | true =>
        simp only [FailureCovered,not_forall,not_or,not_exists,not_and] at hbad
        obtain ⟨m,g,rest,hp,hx,hw,hrest,hno⟩ := hbad
        cases hmove with
        | finishWrite ts g' _ hwr hg =>
          have hgr : g ≠ r := by
            rintro rfl
            simp [hp] at hx
          refine ⟨g,makeKey m.header,by simp [finishSend,hgr,hx],hw,?_⟩
          intro r' ho
          by_cases hr : r' = r
          · subst hr
            simp [finishSend,hp,afterSend,Owes,hrest] at ho
          · simp only [finishSend,setReader_reader,if_neg hr] at ho
            exact hno r' hr ho

/-- In every run whose steps are all covered no slot waits for a failed host once no
dispatch call is in progress; and a step that is not covered leaves a slot waiting for a
failed host with no dispatch call left that could clear its bit. -/
theorem failed_host_not_awaited :
    (∀ (s : Switch N) (hist : List (Event N)), RunOn (switchMachine N) FailureCovered s hist →
      ∀ h, s.reader h = .exited true → (∀ r, (s.reader r).inDispatch = false) →
      ∀ k slot, s.combineQueue k = some slot → slot.pendingBitmap.getLsbD h = false) ∧
    (∀ (s s' : Switch N) (a : SwitchAction N) (ev : List (Event N)),
      switchStep s a = some (s',ev) → ¬FailureCovered s a →
      ∃ h k slot, s'.reader h = .exited true ∧ s'.combineQueue k = some slot ∧
        slot.pendingBitmap.getLsbD h = true ∧ ∀ r, ¬Owes k h (s'.reader r)) := by
  constructor
  · intro s hist hrun h hx hidle k slot hslot
    rw [← Bool.not_eq_true]
    intro hbit
    obtain ⟨r,hr⟩ := waitsOwed_of_run hrun h hx k ⟨slot,hslot,hbit⟩
    have := hr.inDispatch
    rw [hidle r] at this
    cases this
  · intro s s' a ev hs hbad
    obtain ⟨h,k,hx,⟨slot,hslot,hbit⟩,hno⟩ := uncovered_step (switchStep_move hs) hbad
    exact ⟨h,k,slot,hx,hslot,hbit,hno⟩

def ReaderPos.failed : ReaderPos N → Bool
  | .exited failed => failed
  | _ => false

theorem ReaderPos.of_failed {p : ReaderPos N} (hp : p.failed = true) : p = .exited true := by
  cases p with
  | exited failed => exact congrArg ReaderPos.exited hp
  | _ => cases hp

/-- Until a reader has failed, every step but a failing receive is covered. -/
def beforeFailure (s : Switch N) : SwitchAction N → Bool
  | .reader _ .recvFail => false
  | _ => decide (∀ h, (s.reader h).failed = false)

theorem covered_of_beforeFailure {s : Switch N} {a : SwitchAction N}
    (ha : beforeFailure s a = true) : FailureCovered s a := by
  cases a with
  | reader r i =>
    cases i with
    | recvFail => cases ha
    | sent ok =>
      cases ok with
      | false => trivial
      | true =>
        intro m g rest _ hx
        have hnone : (s.reader g).failed = false := of_decide_eq_true ha g
        rw [hx] at hnone
        cases hnone
    | _ => trivial
  | _ => trivial

/-- The key of a slot that is created. -/
def Event.createdKey : Event N → Option CombineKey
  | .created k => some k
  | _ => none

theorem QueueStep.createdKey {queue queue' : CombineQueue} {ev : List (Event N)} {k : CombineKey}
    (hq : QueueStep N queue ev queue') (hk : (queue' k).isSome = true) :
    (queue k).isSome = true ∨ k ∈ ev.filterMap Event.createdKey := by
  cases hq with
  | keep => exact .inl hk
  | @result _ m hm =>
    obtain ⟨old,hold,-,-,rfl⟩ := handleExpertResult_ok hm
    by_cases heq : k = makeKey m.header
    · subst heq
      exact .inl (by rw [hold]; rfl)
    · rw [Function.update_of_ne heq] at hk
      exact .inl hk
  | @take key slot =>
    by_cases heq : k = key
    · subst heq
      simp at hk
    · rw [Function.update_of_ne heq] at hk
      exact .inl hk
  | create header =>
    by_cases heq : k = makeKey header
    · subst heq
      exact .inr (by simp [Event.createdKey])
    · rw [Function.update_of_ne heq] at hk
      exact .inl hk
  | clear key rank =>
    left
    cases hold : queue key with
    | none => rwa [clearTarget,hold] at hk
    | some old =>
      by_cases heq : k = key
      · subst heq
        rw [hold]
        rfl
      · simp only [clearTarget,hold,Function.update_of_ne heq] at hk
        exact hk

theorem createdKey_of_slot {s : Switch N} {hist : List (Event N)}
    (hrun : Run (switchMachine N) s hist) {k : CombineKey}
    (hk : (s.combineQueue k).isSome = true) : k ∈ hist.filterMap Event.createdKey := by
  induction hrun with
  | start hinit =>
    obtain rfl := hinit
    simp [Switch.initial] at hk
  | next _ _ hs ih =>
    rw [List.filterMap_append,List.mem_append]
    exact ((switchStep_move hs).queueStep.createdKey hk).imp_left ih

def ReaderPos.inRead : ReaderPos N → Bool
  | .reading => true
  | _ => false

theorem ReaderPos.of_inRead {p : ReaderPos N} (hp : p.inRead = true) : p = .reading := by
  cases p with
  | reading => rfl
  | _ => cases hp

/-- Both EXPERT_INPUTs are sent, then the connection of host 1 fails. -/
def lostExpertRun : List (SwitchAction 2) :=
  sampleStart ++ sampleCreate ++
  [.reader 0 (.go 0),.reader 0 (.sent true),.reader 0 (.go 0),.reader 0 (.sent true),
    .reader 0 (.go 0),.reader 0 (.sent true),.reader 1 .recvFail]

theorem failed_host_not_awaited_sample :
    ∃ (s : Switch 2) (hist : List (Event 2)) (slot : QueueSlot),
      RunOn (switchMachine 2) FailureCovered s hist ∧ s.reader 1 = .exited true ∧
      s.combineQueue (makeKey sampleDispatch.header) = some slot ∧
      slot.pendingBitmap.getLsbD 0 = true ∧ slot.pendingBitmap.getLsbD 1 = false := by
  obtain ⟨s,hist,hrun,hp⟩ := exists_run_of_replay (switchMachine 2) beforeFailure Switch.initial
    (lostExpertRun.dropLast ++
      [.reader 1 (.recv (sampleResult 1)),.reader 1 (.go 0),.reader 1 (.go 0)])
    (fun s hist => (s.reader 1).inRead &&
      (decide (∀ r, (s.reader r).inDispatch = false) &&
      (decide (hist.filterMap Event.createdKey = [makeKey sampleDispatch.header]) &&
      (s.combineQueue (makeKey sampleDispatch.header)).any fun slot : QueueSlot =>
        decide (slot.pendingBitmap = 1)))) rfl (by decide +kernel)
  simp only [Bool.and_eq_true,decide_eq_true_eq,Option.any_eq_true] at hp
  obtain ⟨hread,hidle,hkeys,slot,hslot,hpending⟩ := hp
  have hcovered : FailureCovered s (.reader 1 .recvFail) := by
    rintro k ⟨slot',hslot',hbit⟩
    have hk := createdKey_of_slot hrun.run (k:=k) (by rw [hslot']; rfl)
    rw [hkeys,List.mem_singleton] at hk
    subst hk
    obtain rfl := Option.some.inj (hslot.symm.trans hslot')
    rw [hpending] at hbit
    cases hbit
  have hstep : (switchMachine 2).step s (.reader 1 .recvFail) =
      some (s.setReader 1 (.exited true),[]) := by
    simp [switchMachine,switchStep,readerStep,ReaderPos.of_inRead hread]
  have hfailed := (hrun.weaken fun _ _ => covered_of_beforeFailure).next hcovered hstep
  refine ⟨_,_,slot,hfailed,by simp,hslot,by rw [hpending]; rfl,?_⟩
  refine failed_host_not_awaited.1 _ _ hfailed 1 (by simp) (fun r => ?_) _ slot hslot
  rw [setReader_reader]
  split_ifs
  · rfl
  · exact hidle r

theorem failed_host_awaited :
    ∃ (s : Switch 2) (hist : List (Event 2)) (slot : QueueSlot),
      Run (switchMachine 2) s hist ∧ s.reader 1 = .exited true ∧
      (∀ r, (s.reader r).inDispatch = false) ∧
      s.combineQueue (makeKey sampleDispatch.header) = some slot ∧
      slot.pendingBitmap.getLsbD 1 = true := by
  obtain ⟨s,hist,hrun,hp⟩ := exists_run_of_replay (switchMachine 2)
    (fun _ _ => true) Switch.initial lostExpertRun
    (fun s _ => (s.reader 1).failed &&
      decide (∀ r, (s.reader r).inDispatch = false) &&
      (s.combineQueue (makeKey sampleDispatch.header)).any fun slot =>
        slot.pendingBitmap.getLsbD 1) rfl (by decide +kernel)
  simp only [Bool.and_eq_true,decide_eq_true_eq,Option.any_eq_true] at hp
  obtain ⟨⟨hx,hidle⟩,slot,hslot,hbit⟩ := hp
  exact ⟨s,hist,slot,hrun.run,ReaderPos.of_failed hx,hidle,hslot,hbit⟩

end INA2A

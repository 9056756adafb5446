import INA2A.SwitchSteps

/-! The representation invariant of combine slots, under arbitrary traffic.
`QueueStep` says once what a step of the switch can do to the slots; everything about
slots is derived from it. -/
namespace INA2A

open ByteBuffers BitWords EventMachine

variable {N : ℕ}

def Event.aboutQueue : Event N → Bool
  | .created _ | .accepted _ _ _ | .cleared _ _ | .taken _ _ _ => true
  | _ => false

/-- All that a step can do to `combine_queue`, with the events that say so. -/
inductive QueueStep (N : ℕ) : CombineQueue → List (Event N) → CombineQueue → Prop
  | keep {queue ev} : (∀ e ∈ ev, e.aboutQueue = false) → QueueStep N queue ev queue
  | result {queue queue' m} : handleExpertResult queue m = .ok queue' →
      QueueStep N queue [.accepted (makeKey m.header) m.header.srcRank.toNat m.payload] queue'
  | take {queue key slot} : queue key = some slot → slot.ready = true →
      QueueStep N queue [.taken key slot.expectedBitmap slot.data] (Function.update queue key none)
  | create {queue ev} (header : MsgHeader) (targets : List (Fin N)) :
      (∀ e ∈ ev, e.aboutQueue = false) →
      QueueStep N queue (ev ++ [.created (makeKey header)])
        (Function.update queue (makeKey header)
          (some (newSlot header (expectedBitmap targets))))
  | clear {queue} (key : CombineKey) (rank : ℕ) :
      QueueStep N queue (clearedEvents queue key rank) (clearTarget queue key rank)

theorem afterSendEvents_aboutQueue (p : ReaderPos N) :
    ∀ e ∈ afterSendEvents p, e.aboutQueue = false := by
  intro e he
  cases p with
  | dispatching m targets => cases targets <;> simp_all [afterSendEvents,Event.aboutQueue]
  | _ => simp [afterSendEvents] at he

theorem ReaderMove.queueStep {s s' : Switch N} {h : Fin N} {i : ReaderInput}
    {ev : List (Event N)} (hm : ReaderMove s h i s' ev) :
    QueueStep N s.combineQueue ev s'.combineQueue := by
  cases hm with
  | result ts m queue _ _ _ hq => exact .result hq
  | pullReady ts m slot _ _ _ hslot hready => exact .take hslot hready
  | create ts m targets =>
    refine .create m.header targets ?_
    intro e he
    split_ifs at he <;> simp_all [Event.aboutQueue]
  | clear ts m g rest => exact .clear _ _
  | sendNull ts g => exact .keep (afterSendEvents_aboutQueue _)
  | finishWrite ts g ok =>
    refine .keep ?_
    intro e he
    rcases List.mem_append.mp he with he | he
    · cases ok <;> simp_all [Event.aboutQueue]
    · exact afterSendEvents_aboutQueue _ e he
  | _ => exact .keep (by simp [Event.aboutQueue])

theorem SwitchMove.queueStep {s s' : Switch N} {a : SwitchAction N} {ev : List (Event N)}
    (hm : SwitchMove s a s' ev) : QueueStep N s.combineQueue ev s'.combineQueue := by
  cases hm with
  | accept g => exact .keep (by simp)
  | start h => exact .keep (by simp)
  | reader h i _ _ hmove => exact hmove.queueStep
  | main _ _ hmove =>
    rw [hmove.combineQueue]
    refine .keep ?_
    cases hmove <;> simp [Event.aboutQueue]

/-- What happened to a slot since it was last created: the results added into it, in
order, and the experts dropped because their input could not be sent. -/
structure SlotRecord where
  accepted : List (ℕ × Bytes)
  cleared : List ℕ

def SlotRecord.ranks (r : SlotRecord) : List ℕ := r.accepted.map Prod.fst
def SlotRecord.payloads (r : SlotRecord) : List Bytes := r.accepted.map Prod.snd

def recordStep (k : CombineKey) (r : SlotRecord) : Event N → SlotRecord
  | .created k' => if k' = k then ⟨[],[]⟩ else r
  | .accepted k' rank payload => if k' = k then { r with accepted := r.accepted ++ [(rank,payload)] } else r
  | .cleared k' rank => if k' = k then { r with cleared := r.cleared ++ [rank] } else r
  | _ => r

def record (k : CombineKey) (hist : List (Event N)) : SlotRecord :=
  hist.foldl (recordStep k) ⟨[],[]⟩

theorem record_append (k : CombineKey) (hist ev : List (Event N)) :
    record k (hist ++ ev) = ev.foldl (recordStep k) (record k hist) := by
  simp [record]

theorem recordStep_of_not_aboutQueue (k : CombineKey) (r : SlotRecord) {e : Event N}
    (he : e.aboutQueue = false) : recordStep k r e = r := by
  cases e <;> simp_all [recordStep,Event.aboutQueue]

theorem foldl_recordStep_of_not_aboutQueue (k : CombineKey) (r : SlotRecord)
    {ev : List (Event N)} (hev : ∀ e ∈ ev, e.aboutQueue = false) :
    ev.foldl (recordStep k) r = r := by
  induction ev with
  | nil => rfl
  | cons e ev ih =>
    rw [List.foldl_cons,recordStep_of_not_aboutQueue k r (hev e (by simp))]
    exact ih fun e he => hev e (by simp [he])

/-- The representation invariant of one slot, against its record. -/
structure SlotOk (N : ℕ) (k : CombineKey) (slot : QueueSlot) (r : SlotRecord) : Prop where
  key : slot.key = k
  size : slot.data.size = slot.payloadLen.toNat
  experts : ∀ e, slot.expectedBitmap.getLsbD e = true → e < N
  expected : ∀ e, slot.expectedBitmap.getLsbD e = true ↔
    slot.pendingBitmap.getLsbD e = true ∨ e ∈ r.ranks ∨ e ∈ r.cleared
  pending : ∀ e, slot.pendingBitmap.getLsbD e = true → e ∉ r.ranks ∧ e ∉ r.cleared
  apart : ∀ e ∈ r.ranks, e ∉ r.cleared
  once : r.ranks.Nodup
  ready : slot.ready = true ↔ slot.pendingBitmap = 0
  sizes : ∀ p ∈ r.payloads, p.size = slot.payloadLen.toNat
  sum : slot.data = Bytes.sum slot.payloadLen.toNat r.payloads

theorem newSlot_ok (header : MsgHeader) (targets : List (Fin N)) :
    SlotOk N (makeKey header) (newSlot header (expectedBitmap targets)) ⟨[],[]⟩ where
  key := rfl
  size := rfl
  experts e he := by
    simp only [newSlot,expectedBitmap,getLsbD_ofBits,Bool.and_eq_true,decide_eq_true_eq,
      List.mem_map] at he
    obtain ⟨⟨g,-,rfl⟩,-⟩ := he
    exact g.isLt
  expected e := by simp [newSlot,SlotRecord.ranks]
  pending e _ := by simp [SlotRecord.ranks]
  apart e he := by simp [SlotRecord.ranks] at he
  once := by simp [SlotRecord.ranks]
  ready := by simp [newSlot]
  sizes p hp := by simp [SlotRecord.payloads] at hp
  sum := rfl

@[simp] theorem clearPending_pendingBitmap (slot : QueueSlot) (rank : ℕ) :
    (slot.clearPending rank).pendingBitmap = clear slot.pendingBitmap rank := rfl
@[simp] theorem aggregate_pendingBitmap (slot : QueueSlot) (rank : ℕ) (payload : Bytes) :
    (slot.aggregate rank payload).pendingBitmap = clear slot.pendingBitmap rank := rfl

theorem clearPending_ready {slot : QueueSlot} (h : slot.ready = true ↔ slot.pendingBitmap = 0)
    (rank : ℕ) : (slot.clearPending rank).ready = true ↔ clear slot.pendingBitmap rank = 0 := by
  change (if clear slot.pendingBitmap rank = 0 then true else slot.ready) = true ↔ _
  by_cases hz : clear slot.pendingBitmap rank = 0
  · simp [hz]
  · have hp : slot.pendingBitmap ≠ 0 := by
      intro hp
      apply hz
      rw [eq_zero_iff] at hp ⊢
      intro i
      simp [hp i]
    rw [if_neg hz]
    exact iff_of_false (fun hr => hp (h.mp hr)) hz

theorem clear_eq_self {b : U64} {rank : ℕ} (h : b.getLsbD rank = false) : clear b rank = b := by
  apply BitVec.eq_of_getLsbD_eq
  intro e _
  by_cases hr : e = rank
  · subst hr; simp [h]
  · simp [hr]

theorem SlotOk.aggregate {k : CombineKey} {slot : QueueSlot} {r : SlotRecord}
    (h : SlotOk N k slot r) {rank : ℕ} {payload : Bytes}
    (hsize : payload.size = slot.payloadLen.toNat)
    (hbit : slot.pendingBitmap.getLsbD rank = true) :
    SlotOk N k (slot.aggregate rank payload)
      { r with accepted := r.accepted ++ [(rank,payload)] } where
  key := h.key
  size := h.size
  experts := h.experts
  expected e := by
    have he := h.expected e
    change slot.expectedBitmap.getLsbD e = true ↔ _
    by_cases hr : e = rank
    · subst hr
      simpa [SlotRecord.ranks,hbit] using he
    · simpa [SlotRecord.ranks,hr] using he
  pending e he := by
    simp only [aggregate_pendingBitmap,getLsbD_clear,Bool.and_eq_true,decide_eq_true_eq] at he
    have hp := h.pending e he.1
    simpa [SlotRecord.ranks,he.2] using hp
  apart e he := by
    simp only [SlotRecord.ranks,List.map_append,List.map_cons,List.map_nil,List.mem_append,
      List.mem_singleton] at he
    rcases he with he | rfl
    · exact h.apart e he
    · exact (h.pending e hbit).2
  once := by
    have hr := (h.pending rank hbit).1
    simp only [SlotRecord.ranks,List.map_append,List.map_cons,List.map_nil] at hr ⊢
    refine List.nodup_append.mpr ⟨h.once,by simp,?_⟩
    intro e he e' he'
    rw [List.mem_singleton.mp he']
    rintro rfl
    exact hr he
  ready := clearPending_ready h.ready rank
  sizes p hp := by
    simp only [SlotRecord.payloads,List.map_append,List.map_cons,List.map_nil,List.mem_append,
      List.mem_singleton] at hp
    rcases hp with hp | rfl
    · exact h.sizes p hp
    · exact hsize
  sum := by
    simp only [SlotRecord.payloads,List.map_append,List.map_cons,List.map_nil]
    rw [Bytes.sum_concat]
    change slot.data.addInto payload = _
    rw [h.sum]
    rfl

theorem SlotOk.clearPending {k : CombineKey} {slot : QueueSlot} {r : SlotRecord}
    (h : SlotOk N k slot r) {rank : ℕ} (hbit : slot.pendingBitmap.getLsbD rank = true) :
    SlotOk N k (slot.clearPending rank) { r with cleared := r.cleared ++ [rank] } where
  key := h.key
  size := h.size
  experts := h.experts
  expected e := by
    have he := h.expected e
    change slot.expectedBitmap.getLsbD e = true ↔ _
    by_cases hr : e = rank
    · subst hr
      simpa [SlotRecord.ranks,hbit] using he
    · simpa [SlotRecord.ranks,hr] using he
  pending e he := by
    simp only [clearPending_pendingBitmap,getLsbD_clear,Bool.and_eq_true,decide_eq_true_eq] at he
    have hp := h.pending e he.1
    simpa [SlotRecord.ranks,he.2] using hp
  apart e he := by
    have hne : e ≠ rank := by
      rintro rfl
      exact (h.pending e hbit).1 he
    simpa [hne] using h.apart e he
  once := h.once
  ready := clearPending_ready h.ready rank
  sizes := h.sizes
  sum := h.sum

theorem SlotOk.clearPending_idle {k : CombineKey} {slot : QueueSlot} {r : SlotRecord}
    (h : SlotOk N k slot r) {rank : ℕ} (hbit : slot.pendingBitmap.getLsbD rank = false) :
    SlotOk N k (slot.clearPending rank) r where
  key := h.key
  size := h.size
  experts := h.experts
  expected e := by
    rw [clearPending_pendingBitmap,clear_eq_self hbit]
    exact h.expected e
  pending e := by
    rw [clearPending_pendingBitmap,clear_eq_self hbit]
    exact h.pending e
  apart := h.apart
  once := h.once
  ready := clearPending_ready h.ready rank
  sizes := h.sizes
  sum := h.sum

/-- Every live slot is represented correctly. -/
def SlotsOk (N : ℕ) (queue : CombineQueue) (hist : List (Event N)) : Prop :=
  ∀ k slot, queue k = some slot → SlotOk N k slot (record k hist)

theorem handleExpertResult_ok {queue queue' : CombineQueue} {m : Msg}
    (h : handleExpertResult queue m = .ok queue') :
    ∃ slot, queue (makeKey m.header) = some slot ∧
      m.payload.size = slot.payloadLen.toNat ∧
      slot.pendingBitmap.getLsbD m.header.srcRank.toNat = true ∧
      queue' = Function.update queue (makeKey m.header)
        (some (slot.aggregate m.header.srcRank.toNat m.payload)) := by
  unfold handleExpertResult at h
  dsimp only at h
  split at h
  · cases h
  · rename_i slot hslot
    split_ifs at h with hsize hrank hbit
    have hlt : m.header.srcRank.toNat < 64 := by omega
    refine ⟨slot,hslot,not_not.mp hsize,?_,(Except.ok.inj h).symm⟩
    rw [and_bit_eq_zero _ hlt] at hbit
    simpa using hbit

theorem QueueStep.slotsOk {queue queue' : CombineQueue} {ev hist : List (Event N)}
    (hs : QueueStep N queue ev queue') (h : SlotsOk N queue hist) :
    SlotsOk N queue' (hist ++ ev) := by
  intro k slot hk
  rw [record_append]
  cases hs with
  | keep hev =>
    rw [foldl_recordStep_of_not_aboutQueue k _ hev]
    exact h k slot hk
  | @result _ m hm =>
    obtain ⟨old,hold,hsize,hbit,rfl⟩ := handleExpertResult_ok hm
    by_cases hkey : makeKey m.header = k
    · subst hkey
      simp only [Function.update_self,Option.some.injEq] at hk
      subst hk
      simpa [recordStep] using (h _ old hold).aggregate hsize hbit
    · rw [Function.update_of_ne (Ne.symm hkey)] at hk
      simpa [recordStep,hkey] using h k slot hk
  | @take key old hold hready =>
    by_cases hkey : key = k
    · subst hkey
      simp at hk
    · rw [Function.update_of_ne (Ne.symm hkey)] at hk
      simpa [recordStep] using h k slot hk
  | create header targets hev =>
    rw [List.foldl_append,foldl_recordStep_of_not_aboutQueue k _ hev]
    by_cases hkey : makeKey header = k
    · subst hkey
      simp only [Function.update_self,Option.some.injEq] at hk
      subst hk
      simpa [recordStep] using newSlot_ok header targets
    · rw [Function.update_of_ne (Ne.symm hkey)] at hk
      simpa [recordStep,hkey] using h k slot hk
  | clear key rank =>
    cases hold : queue key with
    | none =>
      simp only [clearTarget,hold] at hk
      simpa [clearedEvents,hold] using h k slot hk
    | some old =>
      simp only [clearTarget,hold] at hk
      simp only [clearedEvents,hold]
      by_cases hkey : key = k
      · subst hkey
        simp only [Function.update_self,Option.some.injEq] at hk
        subst hk
        cases hbit : old.pendingBitmap.getLsbD rank with
        | true => simpa [recordStep] using (h key old hold).clearPending hbit
        | false => simpa using (h key old hold).clearPending_idle hbit
      · rw [Function.update_of_ne (Ne.symm hkey)] at hk
        have hk' := h k slot hk
        split_ifs <;> simpa [recordStep,hkey] using hk'

theorem slotsOk_of_run {s : Switch N} {hist : List (Event N)}
    (hrun : Run (switchMachine N) s hist) : SlotsOk N s.combineQueue hist := by
  refine hrun.invariant (P := fun s hist => SlotsOk N s.combineQueue hist) ?_ ?_
  · rintro s rfl k slot hk
    cases hk
  · intro s hist a s' ev _ ih _ hs
    exact (switchStep_move hs).queueStep.slotsOk ih

/-- Slot representation under arbitrary traffic: whatever is received, whichever sends
fail and however the reader threads interleave, every slot carries its map key, has
`payload_len` bytes, waits only for experts it expects, expects only registered hosts, is
ready exactly when it waits for nobody, and holds the byte-wise sum of the results accepted
since it was created, at most one for each expert. -/
theorem slot_invariant {s : Switch N} {hist : List (Event N)}
    (hrun : Run (switchMachine N) s hist) {k : CombineKey} {slot : QueueSlot}
    (hk : s.combineQueue k = some slot) :
    slot.key = k ∧
    slot.data.size = slot.payloadLen.toNat ∧
    (∀ e, slot.pendingBitmap.getLsbD e = true → slot.expectedBitmap.getLsbD e = true) ∧
    (∀ e, slot.expectedBitmap.getLsbD e = true → ∃ he : e < N, s.hosts ⟨e,he⟩ = true) ∧
    (slot.ready = true ↔ slot.pendingBitmap = 0) ∧
    slot.data = Bytes.sum slot.payloadLen.toNat (record k hist).payloads ∧
    (∀ p ∈ (record k hist).payloads, p.size = slot.payloadLen.toNat) ∧
    (record k hist).ranks.Nodup ∧
    ∀ e ∈ (record k hist).ranks,
      slot.expectedBitmap.getLsbD e = true ∧ slot.pendingBitmap.getLsbD e = false := by
  have h := slotsOk_of_run hrun k slot hk
  have hall := (registered_of_run hrun).slot k (by simp [hk])
  refine ⟨h.key,h.size,?_,?_,h.ready,h.sum,h.sizes,h.once,?_⟩
  · intro e he
    exact (h.expected e).mpr (Or.inl he)
  · intro e he
    exact ⟨h.experts e he,hall _⟩
  · intro e he
    refine ⟨(h.expected e).mpr (Or.inr (Or.inl he)),?_⟩
    rw [← Bool.not_eq_true]
    intro hp
    exact (h.pending e hp).1 he

/-- A one-byte token of host 0 for experts 0 and 1. -/
def sampleDispatch : Msg where
  header := { MsgHeader.new .dispatchToken 1 with runId := 1, expertBitmap := 3 }
  payload := Bytes.tabulate 1 fun _ => 5

def sampleResult (rank : ℕ) : Msg where
  header := { MsgHeader.new .expertResult 1 with runId := 1, srcRank := BitVec.ofNat 32 rank }
  payload := Bytes.tabulate 1 fun _ => 10

/-- Both readers started and in `sr_read`. -/
def sampleStart : List (SwitchAction 2) :=
  [.accept 0,.accept 1,.start 0,.start 1,.reader 0 (.go 0),.reader 1 (.go 0)]

/-- Reader 0 receives the token and creates its slot. -/
def sampleCreate : List (SwitchAction 2) :=
  [.reader 0 (.recv sampleDispatch),.reader 0 (.go 0),.reader 0 (.go 0),.reader 0 (.go 0),
    .reader 0 (.go 0)]

theorem slot_invariant_sample : ∃ (s : Switch 2) (hist : List (Event 2)) (slot : QueueSlot),
    Run (switchMachine 2) s hist ∧
    s.combineQueue (makeKey sampleDispatch.header) = some slot ∧
    (record (makeKey sampleDispatch.header) hist).ranks = [1] ∧
    slot.data.get 0 = 10 ∧ slot.pendingBitmap = 1 ∧ slot.ready = false ∧
    slot.data = Bytes.sum 1 (record (makeKey sampleDispatch.header) hist).payloads := by
  obtain ⟨s,hist,hrun,hp⟩ := exists_run_of_replay (switchMachine 2)
    (fun _ _ => true) Switch.initial
    (sampleStart ++ sampleCreate ++ [.reader 1 (.recv (sampleResult 1)),.reader 1 (.go 0)])
    (fun s hist => (record (makeKey sampleDispatch.header) hist).ranks = [1] &&
      (s.combineQueue (makeKey sampleDispatch.header)).any fun slot =>
        slot.data.get 0 = 10 && slot.pendingBitmap = 1 && slot.payloadLen = 1)
    rfl (by decide +kernel)
  simp only [Bool.and_eq_true,decide_eq_true_eq,Option.any_eq_true] at hp
  obtain ⟨hranks,slot,hslot,⟨hget,hpending⟩,hlen⟩ := hp
  obtain ⟨-,-,-,-,hready,hsum,-⟩ := slot_invariant hrun.run hslot
  refine ⟨s,hist,slot,hrun.run,hslot,hranks,hget,hpending,?_,?_⟩
  · rw [← Bool.not_eq_true,hready,hpending]
    decide
  · simpa [hlen] using hsum

end INA2A

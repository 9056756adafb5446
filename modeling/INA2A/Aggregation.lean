import INA2A.Switch

/-! What a slot gathers: whatever the order in which results arrive for it, with repetitions,
results that are rejected and pulls that come too early in between. -/
namespace INA2A

open ByteBuffers BitWords

variable {N : ℕ}

/-- A message whose handling may change a slot that exists. -/
inductive SlotEvent
  | result (m : Msg)
  | pull (header : MsgHeader) (ts : U64)

def SlotEvent.key : SlotEvent → CombineKey
  | .result m => makeKey m.header
  | .pull header _ => makeKey header

def handleSlotEvent (queue : CombineQueue) : SlotEvent → CombineQueue
  | .result m =>
    match handleExpertResult queue m with
    | .error _ => queue
    | .ok queue => queue
  | .pull header ts => (handleCombinePullReq (N:=0) queue header ts).1

def handleSlotEvents (queue : CombineQueue) (l : List SlotEvent) : CombineQueue :=
  l.foldl handleSlotEvent queue

theorem handleSlotEvents_append (queue : CombineQueue) (l l' : List SlotEvent) :
    handleSlotEvents queue (l ++ l') = handleSlotEvents (handleSlotEvents queue l) l' := by
  simp [handleSlotEvents]

theorem handleMessage_slotEvent (s : Switch N) (h : Fin N) (m : Msg) (ts : U64) :
    (m.header.kind = some .expertResult →
      (handleMessage s h m ts).1.combineQueue = handleSlotEvent s.combineQueue (.result m)) ∧
    (m.header.kind = some .combinePullReq →
      (handleMessage s h m ts).1.combineQueue =
        handleSlotEvent s.combineQueue (.pull m.header ts)) := by
  constructor
  · intro hkind
    simp only [handleMessage,hkind,handleSlotEvent]
    cases handleExpertResult s.combineQueue m <;> rfl
  · intro hkind
    simp only [handleMessage,hkind,handleSlotEvent,handleCombinePullReq]
    cases s.combineQueue (makeKey m.header) with
    | none => rfl
    | some slot =>
      dsimp only
      split_ifs <;> rfl

/-- A result that passes the size check of the slot. -/
def RightSized (slot : QueueSlot) (m : Msg) : Prop := m.payload.size = slot.payloadLen.toNat

instance (slot : QueueSlot) (m : Msg) : Decidable (RightSized slot m) := by
  unfold RightSized; infer_instance

/-- Rank `r` is named by a result of the right size. -/
def Occurs (slot : QueueSlot) (l : List SlotEvent) (r : ℕ) : Prop :=
  ∃ m, .result m ∈ l ∧ RightSized slot m ∧ m.header.srcRank.toNat = r

/-- Results of the right size that name the same rank carry the same payload. -/
def Consistent (slot : QueueSlot) (l : List SlotEvent) : Prop :=
  ∀ m m', .result m ∈ l → .result m' ∈ l → RightSized slot m → RightSized slot m' →
    m.header.srcRank = m'.header.srcRank → m.payload = m'.payload

/-- No pull takes the slot. -/
def Unerased (queue : CombineQueue) (k : CombineKey) (l : List SlotEvent) : Prop :=
  ∀ l₁ l₂, l = l₁ ++ l₂ → (handleSlotEvents queue l₁ k).isSome = true

/-- The slot after the payloads `P` of the ranks in `S` have been added and their bits cleared. -/
structure Gathered (slot : QueueSlot) (P : ℕ → Bytes) (S : Finset ℕ) (slot' : QueueSlot) : Prop where
  size : slot'.data.size = slot.data.size
  data : ∀ i < slot.data.size, slot'.data.get i = slot.data.get i + ∑ r ∈ S, (P r).get i
  pending : ∀ r, slot'.pendingBitmap.getLsbD r = (slot.pendingBitmap.getLsbD r && decide (r ∉ S))
  ready : slot'.ready = (slot.ready || (decide S.Nonempty && decide (slot'.pendingBitmap = 0)))
  rest : { slot' with data := slot.data, pendingBitmap := slot.pendingBitmap, ready := slot.ready } =
    slot

theorem Gathered.empty (slot : QueueSlot) (P : ℕ → Bytes) : Gathered slot P ∅ slot := by
  constructor <;> simp

/-- What is gathered is determined by the ranks and their payloads. -/
theorem Gathered.unique {slot a b : QueueSlot} {P : ℕ → Bytes} {S : Finset ℕ}
    (ha : Gathered slot P S a) (hb : Gathered slot P S b) : a = b := by
  have hdata : a.data = b.data := by
    apply Bytes.ext (by rw [ha.size,hb.size])
    intro i hi
    rw [ha.size] at hi
    rw [ha.data i hi,hb.data i hi]
  have hpending : a.pendingBitmap = b.pendingBitmap := by
    apply BitVec.eq_of_getLsbD_eq
    intro i _
    rw [ha.pending,hb.pending]
  have hready : a.ready = b.ready := by rw [ha.ready,hb.ready,hpending]
  have hrest := ha.rest.trans hb.rest.symm
  cases a
  cases b
  simp_all

theorem Gathered.add {slot slot' : QueueSlot} {P : ℕ → Bytes} {S : Finset ℕ}
    (hg : Gathered slot P S slot') {r : ℕ} (hr : r ∉ S) :
    Gathered slot P (insert r S) (slot'.aggregate r (P r)) where
  size := hg.size
  data i hi := by
    have hi' : i < slot'.data.size := by rwa [hg.size]
    rw [Finset.sum_insert hr,QueueSlot.aggregate]
    change (slot'.data.addInto (P r)).get i = _
    rw [Bytes.addInto,Bytes.tabulate_get _ hi',hg.data i hi]
    split_ifs with hlt
    · rw [add_comm ((P r).get i),← add_assoc]
    · rw [(P r).get_out i (by omega),zero_add]
  pending j := by
    change (slot'.pendingBitmap &&& ~~~bit 64 r).getLsbD j = _
    have hclear := getLsbD_clear slot'.pendingBitmap r j
    rw [clear] at hclear
    rw [hclear,hg.pending]
    simp only [Finset.mem_insert,not_or,Bool.decide_and,Bool.and_assoc]
    congr 1
    exact Bool.and_comm _ _
  ready := by
    change (if slot'.pendingBitmap &&& ~~~bit 64 r = 0 then true else slot'.ready) =
      (slot.ready || (decide (insert r S).Nonempty &&
        decide (slot'.pendingBitmap &&& ~~~bit 64 r = 0)))
    rw [hg.ready]
    by_cases hzero : slot'.pendingBitmap &&& ~~~bit 64 r = 0
    · rw [if_pos hzero]
      simp [hzero]
    · have hne : slot'.pendingBitmap ≠ 0 := by
        intro hz
        simp [hz] at hzero
      rw [if_neg hzero,decide_eq_false hzero,decide_eq_false hne,Bool.and_false,Bool.and_false]
  rest := hg.rest

variable {queue : CombineQueue} {k : CombineKey} {slot : QueueSlot} {l l' : List SlotEvent}

/-- The payload that a message brings for a rank. -/
def SlotEvent.payloadFor (slot : QueueSlot) (r : ℕ) : SlotEvent → Option Bytes
  | .result m => if RightSized slot m ∧ m.header.srcRank.toNat = r then some m.payload else none
  | .pull _ _ => none

theorem SlotEvent.payloadFor_eq {r : ℕ} {x : SlotEvent} {b : Bytes} :
    x.payloadFor slot r = some b ↔
      ∃ m, x = .result m ∧ RightSized slot m ∧ m.header.srcRank.toNat = r ∧ m.payload = b := by
  cases x with
  | pull header ts => simp [payloadFor]
  | result m => simp [payloadFor,and_assoc]

/-- The ranks still waited for that a sequence brings. -/
def contributors (slot : QueueSlot) (l : List SlotEvent) : Finset ℕ :=
  (Finset.range 64).filter fun r =>
    slot.pendingBitmap.getLsbD r && (l.findSome? (SlotEvent.payloadFor slot r)).isSome

theorem mem_contributors {r : ℕ} : r ∈ contributors slot l ↔
    slot.pendingBitmap.getLsbD r = true ∧ Occurs slot l r := by
  have hocc : (l.findSome? (SlotEvent.payloadFor slot r)).isSome = true ↔ Occurs slot l r := by
    rw [List.findSome?_isSome_iff]
    constructor
    · rintro ⟨x,hx,hsome⟩
      obtain ⟨b,hb⟩ := Option.isSome_iff_exists.mp hsome
      obtain ⟨m,rfl,hsize,hr,-⟩ := SlotEvent.payloadFor_eq.mp hb
      exact ⟨m,hx,hsize,hr⟩
    · rintro ⟨m,hm,hsize,hr⟩
      refine ⟨.result m,hm,?_⟩
      rw [SlotEvent.payloadFor_eq.mpr ⟨m,rfl,hsize,hr,rfl⟩]
      rfl
  rw [contributors,Finset.mem_filter,Finset.mem_range,Bool.and_eq_true,hocc]
  constructor
  · exact fun h => h.2
  · exact fun h => ⟨BitVec.lt_of_getLsbD h.1,h⟩

theorem occurs_append {r : ℕ} {x : SlotEvent} : Occurs slot (l ++ [x]) r ↔
    Occurs slot l r ∨ ∃ m, x = .result m ∧ RightSized slot m ∧ m.header.srcRank.toNat = r := by
  simp only [Occurs,List.mem_append,List.mem_singleton]
  constructor
  · rintro ⟨m,hm | hm,hsize,hr⟩
    · exact .inl ⟨m,hm,hsize,hr⟩
    · exact .inr ⟨m,hm.symm,hsize,hr⟩
  · rintro (⟨m,hm,hsize,hr⟩ | ⟨m,hm,hsize,hr⟩)
    · exact ⟨m,.inl hm,hsize,hr⟩
    · exact ⟨m,.inr hm.symm,hsize,hr⟩

/-- A message that brings no rank that is still waited for changes nothing. -/
theorem contributors_append_of_not {x : SlotEvent}
    (hnot : ∀ m, x = .result m → RightSized slot m →
      slot.pendingBitmap.getLsbD m.header.srcRank.toNat = true →
      m.header.srcRank.toNat ∈ contributors slot l) :
    contributors slot (l ++ [x]) = contributors slot l := by
  ext r
  rw [mem_contributors,mem_contributors,occurs_append]
  constructor
  · rintro ⟨hpending,hocc | ⟨m,rfl,hsize,rfl⟩⟩
    · exact ⟨hpending,hocc⟩
    · exact mem_contributors.mp (hnot m rfl hsize hpending)
  · rintro ⟨hpending,hocc⟩
    exact ⟨hpending,.inl hocc⟩

theorem contributors_append_result {m : Msg} (hsize : RightSized slot m)
    (hpending : slot.pendingBitmap.getLsbD m.header.srcRank.toNat = true) :
    contributors slot (l ++ [.result m]) = insert m.header.srcRank.toNat (contributors slot l) := by
  ext r
  rw [Finset.mem_insert,mem_contributors,mem_contributors,occurs_append]
  constructor
  · rintro ⟨hr,hocc | ⟨m',heq,-,rfl⟩⟩
    · exact .inr ⟨hr,hocc⟩
    · cases heq
      exact .inl rfl
  · rintro (rfl | ⟨hr,hocc⟩)
    · exact ⟨hpending,.inr ⟨m,rfl,hsize,rfl⟩⟩
    · exact ⟨hr,.inl hocc⟩

theorem Gathered.payloadLen {slot' : QueueSlot} {P : ℕ → Bytes} {S : Finset ℕ}
    (hg : Gathered slot P S slot') : slot'.payloadLen = slot.payloadLen := by
  rw [← hg.rest]

theorem Gathered.step {P : ℕ → Bytes} {slot' : QueueSlot} {x : SlotEvent} (hkey : x.key = k)
    (hP : ∀ m, x = .result m → RightSized slot m → m.payload = P m.header.srcRank.toNat)
    (hq : queue k = some slot') (hg : Gathered slot P (contributors slot l) slot')
    (hkeep : (handleSlotEvent queue x k).isSome = true) :
    ∃ slot₁, handleSlotEvent queue x k = some slot₁ ∧
      Gathered slot P (contributors slot (l ++ [x])) slot₁ := by
  subst hkey
  cases x with
  | pull header ts =>
    refine ⟨slot',?_,?_⟩
    · simp only [handleSlotEvent,handleCombinePullReq] at hkeep ⊢
      change queue (makeKey header) = some slot' at hq
      rw [hq] at hkeep ⊢
      dsimp only at hkeep ⊢
      split_ifs at hkeep ⊢
      · simp [SlotEvent.key] at hkeep
      · exact hq
    · rwa [contributors_append_of_not (by simp)]
  | result m =>
    change queue (makeKey m.header) = some slot' at hq
    simp only [handleSlotEvent,handleExpertResult,SlotEvent.key,hq]
    by_cases hsize : m.payload.size = slot'.payloadLen.toNat
    · have hright : RightSized slot m := by rw [RightSized,hsize,hg.payloadLen]
      rw [if_neg (not_not.mpr hsize)]
      by_cases hrank : 64 ≤ m.header.srcRank.toNat
      · rw [if_pos hrank]
        refine ⟨slot',hq,?_⟩
        rwa [contributors_append_of_not]
        rintro m' heq - hpending
        cases heq
        have := BitVec.lt_of_getLsbD hpending
        omega
      · have hzero := and_bit_eq_zero slot'.pendingBitmap (e:=m.header.srcRank.toNat) (by omega)
        rw [if_neg hrank]
        have hbit := hg.pending m.header.srcRank.toNat
        by_cases hpending : slot'.pendingBitmap.getLsbD m.header.srcRank.toNat = true
        · rw [if_neg (by rw [hzero,hpending]; simp)]
          rw [hpending] at hbit
          obtain ⟨hwaited,hnew⟩ := Bool.and_eq_true_iff.mp hbit.symm
          refine ⟨_,Function.update_self _ _ _,?_⟩
          rw [contributors_append_result hright hwaited,hP m rfl hright]
          exact hg.add (of_decide_eq_true hnew)
        · rw [Bool.not_eq_true] at hpending
          rw [if_pos (hzero.mpr hpending)]
          refine ⟨slot',hq,?_⟩
          rwa [contributors_append_of_not]
          rintro m' heq - hwaited
          cases heq
          rw [hpending,hwaited,Bool.true_and] at hbit
          simpa using hbit.symm
    · rw [if_pos hsize]
      refine ⟨slot',hq,?_⟩
      rwa [contributors_append_of_not]
      rintro m' heq hright -
      cases heq
      rw [RightSized,← hg.payloadLen] at hright
      exact absurd hright hsize

/-- A sequence adds the payloads of the ranks it brings, each once. -/
theorem gathered_of_events {P : ℕ → Bytes} (hslot : queue k = some slot)
    (hkey : ∀ x ∈ l, x.key = k)
    (hP : ∀ m, .result m ∈ l → RightSized slot m → m.payload = P m.header.srcRank.toNat)
    (hkeep : Unerased queue k l) :
    ∃ slot', handleSlotEvents queue l k = some slot' ∧
      Gathered slot P (contributors slot l) slot' := by
  induction l using List.reverseRecOn with
  | nil =>
    refine ⟨slot,hslot,?_⟩
    have hnone : contributors slot [] = ∅ := by
      ext r
      simp [mem_contributors,Occurs]
    rw [hnone]
    exact .empty slot P
  | append_singleton l x ih =>
    obtain ⟨slot',hq,hg⟩ := ih (fun y hy => hkey y (by simp [hy]))
      (fun m hm => hP m (by simp [hm]))
      (fun l₁ l₂ hsplit => hkeep l₁ (l₂ ++ [x]) (by rw [hsplit,List.append_assoc]))
    have hlast := hkeep (l ++ [x]) [] (by simp)
    rw [handleSlotEvents_append] at hlast ⊢
    refine hg.step (hkey x (by simp)) ?_ hq hlast
    rintro m rfl
    exact hP m (by simp)

def payloadOf (slot : QueueSlot) (l : List SlotEvent) (r : ℕ) : Bytes :=
  (l.findSome? (SlotEvent.payloadFor slot r)).getD Bytes.empty

theorem payloadOf_eq (hc : Consistent slot l) {m : Msg} (hm : .result m ∈ l)
    (hsize : RightSized slot m) : m.payload = payloadOf slot l m.header.srcRank.toNat := by
  have hfor := SlotEvent.payloadFor_eq.mpr ⟨m,rfl,hsize,rfl,rfl⟩
  unfold payloadOf
  cases hfind : l.findSome? (SlotEvent.payloadFor slot m.header.srcRank.toNat) with
  | none =>
    rw [List.findSome?_eq_none_iff.mp hfind _ hm] at hfor
    cases hfor
  | some b =>
    obtain ⟨x,hx,hb⟩ := List.exists_of_findSome?_eq_some hfind
    obtain ⟨m',rfl,hsize',hrank,rfl⟩ := SlotEvent.payloadFor_eq.mp hb
    exact hc m m' hm hx hsize hsize' (BitVec.eq_of_toNat_eq hrank.symm)

/-- What may be relied on about the order in which messages for a slot are handled. -/
structure OrderIndependent (queue : CombineQueue) (k : CombineKey) (slot : QueueSlot) : Prop where
  /-- Only the ranks that are waited for and occur in a right-sized result matter. -/
  sameRanks : ∀ l l', (∀ x ∈ l ++ l', x.key = k) → Consistent slot (l ++ l') →
    Unerased queue k l → Unerased queue k l' →
    (∀ r, slot.pendingBitmap.getLsbD r = true → (Occurs slot l r ↔ Occurs slot l' r)) →
    handleSlotEvents queue l k = handleSlotEvents queue l' k
  /-- So the expected ones say enough, when none but expected ranks are waited for. -/
  sameExpected : (∀ r, slot.pendingBitmap.getLsbD r = true → slot.expectedBitmap.getLsbD r = true) →
    ∀ l l', (∀ x ∈ l ++ l', x.key = k) → Consistent slot (l ++ l') →
    Unerased queue k l → Unerased queue k l' →
    (∀ r, slot.expectedBitmap.getLsbD r = true → (Occurs slot l r ↔ Occurs slot l' r)) →
    handleSlotEvents queue l k = handleSlotEvents queue l' k
  reordered : ∀ l l', l.Perm l' → (∀ x ∈ l, x.key = k) → Consistent slot l →
    Unerased queue k l → Unerased queue k l' →
    handleSlotEvents queue l k = handleSlotEvents queue l' k
  /-- The same messages, in any order and each any number of times. -/
  repeated : ∀ l l', (∀ x, x ∈ l ↔ x ∈ l') → (∀ x ∈ l, x.key = k) → Consistent slot l →
    Unerased queue k l → Unerased queue k l' →
    handleSlotEvents queue l k = handleSlotEvents queue l' k

theorem same_of_ranks (hslot : queue k = some slot) (hkey : ∀ x ∈ l ++ l', x.key = k)
    (hc : Consistent slot (l ++ l')) (hkeep : Unerased queue k l) (hkeep' : Unerased queue k l')
    (hranks : ∀ r, slot.pendingBitmap.getLsbD r = true → (Occurs slot l r ↔ Occurs slot l' r)) :
    handleSlotEvents queue l k = handleSlotEvents queue l' k := by
  have hP : ∀ m, .result m ∈ l ++ l' → RightSized slot m →
      m.payload = payloadOf slot (l ++ l') m.header.srcRank.toNat :=
    fun m hm hsize => payloadOf_eq hc hm hsize
  obtain ⟨a,ha,hga⟩ := gathered_of_events hslot (fun x hx => hkey x (by simp [hx]))
    (fun m hm => hP m (by simp [hm])) hkeep
  obtain ⟨b,hb,hgb⟩ := gathered_of_events hslot (fun x hx => hkey x (by simp [hx]))
    (fun m hm => hP m (by simp [hm])) hkeep'
  have hsame : contributors slot l = contributors slot l' := by
    ext r
    rw [mem_contributors,mem_contributors,and_congr_right_iff]
    exact hranks r
  rw [hsame] at hga
  rw [ha,hb,hga.unique hgb]

/-- For a slot that exists, with any data, any bits pending and any payload length. -/
theorem order_independent (queue : CombineQueue) (k : CombineKey) (slot : QueueSlot)
    (hslot : queue k = some slot) : OrderIndependent queue k slot := by
  have hrepeated : ∀ l l', (∀ x, x ∈ l ↔ x ∈ l') → (∀ x ∈ l, x.key = k) → Consistent slot l →
      Unerased queue k l → Unerased queue k l' →
      handleSlotEvents queue l k = handleSlotEvents queue l' k := by
    intro l l' hsame hkey hc hkeep hkeep'
    have hmem : ∀ x, x ∈ l ++ l' → x ∈ l := by
      intro x hx
      rcases List.mem_append.mp hx with hx | hx
      · exact hx
      · exact (hsame x).mpr hx
    refine same_of_ranks hslot (fun x hx => hkey x (hmem x hx)) ?_ hkeep hkeep' ?_
    · intro m m' hm hm'
      exact hc m m' (hmem _ hm) (hmem _ hm')
    · intro r _
      simp only [Occurs,hsame]
  refine ⟨?_,?_,?_,hrepeated⟩
  · intro l l' hkey hc hkeep hkeep' hranks
    exact same_of_ranks hslot hkey hc hkeep hkeep' hranks
  · intro hsub l l' hkey hc hkeep hkeep' hranks
    exact same_of_ranks hslot hkey hc hkeep hkeep' fun r hr => hranks r (hsub r hr)
  · intro l l' hperm
    exact hrepeated l l' fun x => hperm.mem_iff

theorem isSome_of_results (hres : ∀ x ∈ l, ∃ m, x = .result m) (q : CombineQueue)
    (hq : (q k).isSome = true) : (handleSlotEvents q l k).isSome = true := by
  induction l generalizing q with
  | nil => exact hq
  | cons x l ih =>
    obtain ⟨m,rfl⟩ := hres x (by simp)
    refine ih (fun y hy => hres y (by simp [hy])) _ ?_
    simp only [handleSlotEvent]
    cases hhandled : handleExpertResult q m with
    | error f => exact hq
    | ok q' =>
      unfold handleExpertResult at hhandled
      dsimp only at hhandled ⊢
      split at hhandled
      · cases hhandled
      · split_ifs at hhandled
        cases hhandled
        rw [Function.update_apply]
        split_ifs
        · rfl
        · exact hq

theorem unerased_of_results (hslot : queue k = some slot)
    (hres : ∀ x ∈ l, ∃ m, x = .result m) : Unerased queue k l := by
  rintro l₁ l₂ rfl
  apply isSome_of_results
  · intro x hx
    exact hres x (by simp [hx])
  · rw [hslot]
    rfl

/-- One slot that waits for the one-byte results of ranks 0 and 1. -/
def gatheredQueue : CombineQueue :=
  Function.update (fun _ => none) (makeKey (MsgHeader.new .expertResult 1))
    (some (newSlot (MsgHeader.new .expertResult 1) 3))

def gatheredResult (rank : U32) (b : Byte) : Msg where
  header := { MsgHeader.new .expertResult 1 with srcRank := rank }
  payload := Bytes.tabulate 1 fun _ => b

theorem order_independent_sample :
    handleSlotEvents gatheredQueue [.result (gatheredResult 0 5),.result (gatheredResult 1 255)]
        (makeKey (MsgHeader.new .expertResult 1)) =
      handleSlotEvents gatheredQueue [.result (gatheredResult 1 255),.result (gatheredResult 0 5)]
        (makeKey (MsgHeader.new .expertResult 1)) := by
  have hslot : gatheredQueue (makeKey (MsgHeader.new .expertResult 1)) =
      some (newSlot (MsgHeader.new .expertResult 1) 3) := Function.update_self _ _ _
  refine (order_independent gatheredQueue _ _ hslot).reordered _ _ (List.Perm.swap ..) ?_ ?_
    (unerased_of_results hslot ?_) (unerased_of_results hslot ?_)
  · intro x hx
    simp only [List.mem_cons,List.not_mem_nil,or_false] at hx
    rcases hx with rfl | rfl <;> rfl
  · intro m m' hm hm' _ _ hrank
    simp only [List.mem_cons,SlotEvent.result.injEq,List.not_mem_nil,or_false] at hm hm'
    rcases hm with rfl | rfl
    · rcases hm' with rfl | rfl
      · rfl
      · exact absurd hrank (by decide)
    · rcases hm' with rfl | rfl
      · exact absurd hrank (by decide)
      · rfl
  · simp
  · simp

end INA2A

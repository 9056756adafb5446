import INA2A.Combine
import INA2A.Tickets

/-! Dispatching a key again keeps its generations apart as long as the work for its earlier slots
stays out of the newer ones' way, and mixes them otherwise. -/
namespace INA2A

open ByteBuffers BitWords EventMachine Inventory

variable {N : ℕ} {c : Config N} {s s' : Redispatch N} {hist ev : List (Event N)}

/-- Exactly the results for the newest slot of a key are accepted. -/
theorem Apart.accepted_iff (h : Apart s hist) (hf : Formed c s) {r : Fin N} {w : Work N}
    (hw : s.hand r = some w) :
    (∃ queue, handleExpertResult s.switch.combineQueue w.msg = .ok queue) ↔ w.gen = s.gen w.key := by
  obtain ⟨-,-,hresult⟩ := hf.hand r w hw
  have hway : s.UnderWay w := Or.inr (Or.inr ⟨r,hw⟩)
  have hout : w.msg.payload.size = w.source.payload.size := by
    rw [hresult.payload]
    rfl
  constructor
  · rintro ⟨queue,hres⟩
    obtain ⟨slot,hslot,hsize,hbit,-⟩ := handleExpertResult_ok hres
    rw [hresult.key] at hslot
    rw [hresult.srcRank] at hbit
    by_contra hold
    exact (h.work w hway).2 hold slot ⟨hslot,hbit⟩ (hout.symm.trans hsize)
  · intro hcur
    have hticket := hway.ticket_mem
    rw [Work.ticket,hcur] at hticket
    obtain ⟨slot,hslot,hbit⟩ := h.awaited _ _ hticket
    have hsize : w.msg.payload.size = slot.payloadLen.toNat := by
      rw [hout,(h.work w hway).1 hcur,h.length _ slot hslot]
    have hlt := BitVec.lt_of_getLsbD hbit
    have hmask : slot.pendingBitmap &&& bit 64 w.expert ≠ 0 := by
      rw [Ne,and_bit_eq_zero _ hlt,hbit]
      simp
    unfold handleExpertResult
    simp only [hresult.key,hslot,hresult.srcRank]
    rw [if_neg (not_not.mpr hsize),if_neg (by omega),if_neg hmask]
    exact ⟨_,rfl⟩

theorem underWay_of_handled {t : Switch N} {r : Fin N} {w : Work N}
    (h : Redispatch.UnderWay
      { s with
        switch := t
        hand := Function.update s.hand r none } w) : s.UnderWay w := by
  rcases h with h | h | ⟨g,hg⟩
  · exact Or.inl h
  · exact Or.inr (Or.inl h)
  · dsimp only at hg
    rw [Function.update_apply] at hg
    split_ifs at hg
    exact Or.inr (Or.inr ⟨g,hg⟩)

theorem mem_dueTickets {n : ℕ} {m : Msg} {targets : List (Fin N)} {k : CombineKey} {g : Fin N}
    {i : ℕ} : (k,g,i) ∈ bag (dueTicket n) (targets.map (Prod.mk m)) ↔
      k = makeKey m.header ∧ g ∈ targets ∧ i = n := by
  simp only [mem_bag,List.mem_map]
  constructor
  · rintro ⟨-,⟨g',hg',rfl⟩,heq⟩
    cases heq
    exact ⟨rfl,hg',rfl⟩
  · rintro ⟨rfl,hg,rfl⟩
    exact ⟨_,⟨g,hg,rfl⟩,rfl⟩

theorem newSlot_awaits {header : MsgHeader} {targets : List (Fin N)} {g : Fin N} (hN : N ≤ 64) :
    (newSlot header (expectedBitmap targets)).pendingBitmap.getLsbD g = true ↔ g ∈ targets := by
  change (expectedBitmap targets).getLsbD g = true ↔ _
  have hlt : g.val < 64 := by omega
  rw [expectedBitmap,getLsbD_ofBits]
  simp [hlt,Fin.val_inj]

/-- What a step does that creates a slot for `targets`. -/
structure Creates (s s' : Redispatch N) (r : Fin N) (m : Msg) (targets : List (Fin N)) : Prop where
  tickets : s'.tickets =
    s.tickets + bag (dueTicket (s.gen (makeKey m.header) + 1)) (targets.map (Prod.mk m))
  gen : s'.gen = Function.update s.gen (makeKey m.header) (s.gen (makeKey m.header) + 1)
  latest : s'.latest = Function.update s.latest (makeKey m.header) m
  call : s'.call = Function.update s.call r (s.gen (makeKey m.header) + 1)
  queue : s'.switch.combineQueue = Function.update s.switch.combineQueue (makeKey m.header)
    (some (newSlot m.header (expectedBitmap targets)))
  due : ∀ g, (s'.switch.reader g).due =
    if g = r then targets.map (Prod.mk m) else (s.switch.reader g).due
  work : ∀ w, s'.UnderWay w → s.UnderWay w

theorem creates_slot {r : Fin N} {m : Msg} {targets : List (Fin N)}
    (hpos : s.switch.reader r = .looking m [] targets) :
    Creates s
      { s with
        switch := (createSlot s.switch r m targets).1
        gen := Function.update s.gen (makeKey m.header) (s.gen (makeKey m.header) + 1)
        latest := Function.update s.latest (makeKey m.header) m
        call := Function.update s.call r (s.gen (makeKey m.header) + 1) } r m targets where
  tickets := by apply tickets_created hpos <;> rfl
  gen := rfl
  latest := rfl
  call := rfl
  queue := rfl
  due g := by
    by_cases hg : g = r <;> simp [createSlot,hg,ReaderPos.due]
  work _ hw := hw

theorem Apart.not_mem_tickets (h : Apart s hist) (k : CombineKey) (g : Fin N) :
    (k,g,s.gen k + 1) ∉ s.tickets := by
  intro hg
  have := h.known _ hg
  dsimp only at this
  omega

section
variable {r : Fin N} {m : Msg} {targets : List (Fin N)}

theorem Creates.once (hc : Creates s s' r m targets) (h : Apart s hist) (htargets : targets.Nodup) :
    s'.tickets.Nodup := by
  rw [hc.tickets,Multiset.nodup_add]
  refine ⟨h.once,?_,?_⟩
  · refine Multiset.coe_nodup.mpr ?_
    rw [List.map_map]
    refine htargets.map ?_
    intro g g' heq
    cases heq
    rfl
  · rw [Multiset.disjoint_left]
    rintro ⟨k,g,i⟩ hold hnew
    obtain ⟨rfl,-,rfl⟩ := mem_dueTickets.mp hnew
    exact h.not_mem_tickets _ g hold

theorem Creates.known (hc : Creates s s' r m targets) (h : Apart s hist) :
    ∀ t ∈ s'.tickets, t.2.2 ≤ s'.gen t.1 := by
  rintro ⟨k,g,i⟩ ht
  rw [hc.tickets] at ht
  rw [hc.gen]
  rcases Multiset.mem_add.mp ht with ht | ht
  · have hle := h.known _ ht
    dsimp only at hle ⊢
    rw [Function.update_apply]
    split_ifs with hk
    · rw [hk] at hle
      omega
    · exact hle
  · obtain ⟨rfl,-,rfl⟩ := mem_dueTickets.mp ht
    dsimp only
    rw [Function.update_self]

theorem Creates.awaited (hc : Creates s s' r m targets) (h : Apart s hist) (hN : N ≤ 64)
    {k : CombineKey} {g : Fin N} (ht : (k,g,s'.gen k) ∈ s'.tickets) : ∃ slot, s'.Awaits k g slot := by
  rw [hc.tickets,hc.gen] at ht
  by_cases hk : k = makeKey m.header
  · subst hk
    rw [Function.update_self] at ht
    rcases Multiset.mem_add.mp ht with ht | ht
    · exact absurd ht (h.not_mem_tickets _ g)
    · refine ⟨newSlot m.header (expectedBitmap targets),?_,?_⟩
      · rw [hc.queue,Function.update_self]
      · exact (newSlot_awaits hN).mpr (mem_dueTickets.mp ht).2.1
  · rw [Function.update_of_ne hk] at ht
    rcases Multiset.mem_add.mp ht with ht | ht
    · obtain ⟨slot,hs,hbit⟩ := h.awaited k g ht
      refine ⟨slot,?_,hbit⟩
      rwa [hc.queue,Function.update_of_ne hk]
    · exact absurd (mem_dueTickets.mp ht).1 hk

theorem Creates.due_latest (hc : Creates s s' r m targets) (h : Apart s hist) {g : Fin N}
    {x : Msg × Fin N} (hx : x ∈ (s'.switch.reader g).due)
    (hcur : s'.call g = s'.gen (makeKey x.1.header)) : x.1 = s'.latest (makeKey x.1.header) := by
  rw [hc.due] at hx
  rw [hc.call,hc.gen] at hcur
  rw [hc.latest]
  by_cases hg : g = r
  · rw [if_pos hg] at hx
    obtain ⟨e,-,rfl⟩ := List.mem_map.mp hx
    rw [Function.update_self]
  · rw [if_neg hg] at hx
    rw [Function.update_of_ne hg] at hcur
    by_cases hk : makeKey x.1.header = makeKey m.header
    · have hmem := due_ticket_mem hx
      rw [dueTicket,hcur,hk,Function.update_self] at hmem
      exact absurd hmem (h.not_mem_tickets _ _)
    · rw [Function.update_of_ne hk] at hcur ⊢
      exact h.due g x hx hcur

theorem Creates.fits (hc : Creates s s' r m targets) (h : Apart s hist) (hN : N ≤ 64)
    (hsize : m.payload.size = m.header.payloadLen.toNat)
    (hsep : ∀ w, s.UnderWay w → w.key = makeKey m.header → w.expert ∈ targets →
      w.source.payload.size ≠ m.payload.size) {w : Work N} (hw : s'.UnderWay w) : s'.Fits w := by
  have hold := hc.work w hw
  rw [Redispatch.Fits,hc.gen,hc.latest]
  by_cases hk : w.key = makeKey m.header
  · rw [hk,Function.update_self,Function.update_self]
    refine ⟨?_,?_⟩
    · intro hcur
      have hmem := hold.ticket_mem
      rw [Work.ticket,hcur,hk] at hmem
      exact absurd hmem (h.not_mem_tickets _ _)
    · rintro - slot ⟨hs,hbit⟩
      rw [hc.queue,Function.update_self] at hs
      cases hs
      have hne := hsep w hold hk ((newSlot_awaits hN).mp hbit)
      rwa [hsize] at hne
  · rw [Function.update_of_ne hk,Function.update_of_ne hk]
    refine ⟨(h.work w hold).1,?_⟩
    rintro hgen slot ⟨hs,hbit⟩
    rw [hc.queue,Function.update_of_ne hk] at hs
    exact (h.work w hold).2 hgen slot ⟨hs,hbit⟩

theorem Creates.length (hc : Creates s s' r m targets) (h : Apart s hist)
    (hsize : m.payload.size = m.header.payloadLen.toNat) {k : CombineKey} {slot : QueueSlot}
    (hs : s'.switch.combineQueue k = some slot) :
    slot.payloadLen.toNat = (s'.latest k).payload.size := by
  rw [hc.queue] at hs
  rw [hc.latest]
  by_cases hk : k = makeKey m.header
  · subst hk
    rw [Function.update_self] at hs ⊢
    cases hs
    exact hsize.symm
  · rw [Function.update_of_ne hk] at hs ⊢
    exact h.length k slot hs

end

theorem record_createSlot {r : Fin N} {m : Msg} {targets : List (Fin N)} (k : CombineKey) :
    record k (hist ++ (createSlot s.switch r m targets).2) =
      if makeKey m.header = k then ⟨[],[]⟩ else record k hist := by
  have hev : ∀ e ∈ (if (s.switch.combineQueue (makeKey m.header)).isSome then
      [.rejected .overwritingSlot] else [] : List (Event N)), e.aboutQueue = false := by
    intro e he
    split_ifs at he <;> simp_all [Event.aboutQueue]
  simp only [createSlot,record_append,List.foldl_append]
  rw [foldl_recordStep_of_not_aboutQueue k _ hev]
  rfl

theorem Apart.created (h : Apart s hist) (hN : N ≤ 64) {r : Fin N} {m : Msg}
    {targets : List (Fin N)} (hpos : s.switch.reader r = .looking m [] targets)
    (hfans : (s.switch.reader r).Fans)
    (hsep : ∀ w, s.UnderWay w → w.key = makeKey m.header → w.expert ∈ targets →
      w.source.payload.size ≠ m.payload.size) :
    Apart
      { s with
        switch := (createSlot s.switch r m targets).1
        gen := Function.update s.gen (makeKey m.header) (s.gen (makeKey m.header) + 1)
        latest := Function.update s.latest (makeKey m.header) m
        call := Function.update s.call r (s.gen (makeKey m.header) + 1) }
      (hist ++ (createSlot s.switch r m targets).2) := by
  have hc := creates_slot hpos
  rw [hpos,ReaderPos.Fans,List.append_nil] at hfans
  obtain ⟨hsize,htargets⟩ := hfans
  refine ⟨hc.once h htargets.of_map,hc.known h,fun k g => hc.awaited h hN,
    fun g x => hc.due_latest h,fun w => hc.fits h hN hsize hsep,fun k slot => hc.length h hsize,?_⟩
  intro k slot hs p hp
  rw [record_createSlot] at hp
  split_ifs at hp with hk
  · cases hp
  · dsimp only [createSlot] at hs ⊢
    rw [Function.update_of_ne (Ne.symm hk)] at hs ⊢
    exact h.payloads k slot hs p hp

theorem Apart.sent (h : Apart s hist) {r g : Fin N} {m : Msg} {rest : List (Fin N)} {ts : U64}
    (hpos : s.switch.reader r = .dispatching m (g::rest))
    (hsep : s.call r ≠ s.gen (makeKey m.header) → ∀ slot, s.Awaits (makeKey m.header) g slot →
      m.payload.size ≠ slot.payloadLen.toNat) :
    Apart
      { s with
        switch := (finishSend s.switch r g ts true).1
        inputs := s.inputs ++ [⟨g,s.call r,m,expertInputMsg m g ts⟩] }
      (hist ++ (finishSend s.switch r g ts true).2) := by
  refine h.elsewhere (le_of_eq ?_) rfl rfl rfl ?_ ?_ rfl (finishSend_aboutQueue true)
  · refine tickets_sent hpos ?_ rfl rfl rfl rfl rfl
    simp [finishSend,hpos,afterSend,Switch.setReader]
  · intro r' x hx
    by_cases hr : r' = r
    · subst hr
      simp only [finishSend,setReader_reader,if_true,hpos,afterSend,ReaderPos.due] at hx ⊢
      exact List.mem_cons_of_mem _ hx
    · simpa [finishSend,hr] using hx
  · rintro w (hw | hw | hw)
    · rcases List.mem_append.mp hw with hw | hw
      · exact h.work w (Or.inl hw)
      · obtain rfl := List.mem_singleton.mp hw
        exact ⟨h.due r (m,g) (by simp [hpos,ReaderPos.due]),hsep⟩
    · exact h.work w (Or.inr (Or.inl hw))
    · exact h.work w (Or.inr (Or.inr hw))

theorem Apart.cleared (h : Apart s hist) {r g : Fin N} {m : Msg} {rest : List (Fin N)}
    (hpos : s.switch.reader r = .clearing m g rest)
    (hsep : s.call r ≠ s.gen (makeKey m.header) → ∀ slot, ¬s.Awaits (makeKey m.header) g slot)
    (hs' : s' = { s with switch := { s.switch.setReader r (.dispatching m rest) with
      combineQueue := clearTarget s.switch.combineQueue (makeKey m.header) g } }) :
    Apart s' (hist ++ clearedEvents s.switch.combineQueue (makeKey m.header) g) := by
  have htickets : s'.tickets + {dueTicket (s.call r) (m,g)} = s.tickets := by
    apply tickets_cleared hpos <;> (subst hs'; rfl)
  have hqueue : s'.switch.combineQueue = Function.update s.switch.combineQueue (makeKey m.header)
      ((s.switch.combineQueue (makeKey m.header)).map fun slot => slot.clearPending g) := by
    rw [hs',← clearTarget_eq_update]
  have hle : s'.tickets ≤ s.tickets := htickets ▸ Multiset.le_add_right _ _
  have hgone : (makeKey m.header,g,s.gen (makeKey m.header)) ∉ s'.tickets := by
    intro hmem
    by_cases hcur : s.call r = s.gen (makeKey m.header)
    · have honce := h.once
      rw [← htickets,dueTicket,hcur,add_comm,Multiset.singleton_add,Multiset.nodup_cons] at honce
      exact honce.1 hmem
    · obtain ⟨slot,hslot⟩ := h.awaited _ _ (Multiset.mem_of_le hle hmem)
      exact hsep hcur slot hslot
  refine h.settled hqueue (fun _ => rfl) (fun _ => rfl) hle hgone ?_ ?_ ?_ ?_ ?_ ?_
  · rw [hs']
  · rw [hs']
  · rw [hs']
  · intro r' x hx
    rw [hs'] at hx
    by_cases hr : r' = r
    · subst hr
      simp only [setReader_reader,if_true,hpos,ReaderPos.due] at hx ⊢
      exact List.mem_cons_of_mem _ hx
    · simpa [hr] using hx
  · rw [hs']
    exact fun w hw => hw
  · intro k p hp
    rw [record_cleared] at hp
    exact Or.inl hp

theorem Apart.accepted (h : Apart s hist) (hf : Formed c s) {r : Fin N} {w : Work N}
    {queue : CombineQueue} (hw : s.hand r = some w)
    (hres : handleExpertResult s.switch.combineQueue w.msg = .ok queue)
    (hs' : s' = { s with
      switch := { s.switch.setReader r .top with combineQueue := queue }
      hand := Function.update s.hand r none }) :
    Apart s' (hist ++ [.accepted (makeKey w.msg.header) w.msg.header.srcRank.toNat w.msg.payload]) := by
  obtain ⟨hgot,-,hresult⟩ := hf.hand r w hw
  have hcur := (h.accepted_iff hf hw).mp ⟨queue,hres⟩
  have hsource := (h.work w (Or.inr (Or.inr ⟨r,hw⟩))).1 hcur
  have htickets : s'.tickets + {w.ticket} = s.tickets := by
    apply tickets_handled hw hgot <;> (subst hs'; rfl)
  obtain ⟨slot,hslot,-,-,hupdate⟩ := handleExpertResult_ok hres
  rw [hresult.key] at hslot
  have hqueue : s'.switch.combineQueue = Function.update s.switch.combineQueue w.key
      ((s.switch.combineQueue w.key).map fun slot => slot.aggregate w.expert w.msg.payload) := by
    rw [hs',hslot,← hresult.key,← hresult.srcRank]
    exact hupdate
  have hle : s'.tickets ≤ s.tickets := htickets ▸ Multiset.le_add_right _ _
  have hgone : (w.key,w.expert,s.gen w.key) ∉ s'.tickets := by
    have honce := h.once
    rw [← htickets,Work.ticket,hcur,add_comm,Multiset.singleton_add,Multiset.nodup_cons] at honce
    exact honce.1
  refine h.settled hqueue (fun _ => rfl) (fun _ => rfl) hle hgone ?_ ?_ ?_ ?_ ?_ ?_
  · rw [hs']
  · rw [hs']
  · rw [hs']
  · intro r' x hx
    rw [hs'] at hx
    by_cases hr : r' = r
    · subst hr
      simp [ReaderPos.due] at hx
    · simpa [hr] using hx
  · rw [hs']
    exact fun v hv => underWay_of_handled hv
  · intro k p hp
    rw [record_append] at hp
    simp only [List.foldl_cons,List.foldl_nil,recordStep,hresult.key] at hp
    split_ifs at hp with hkey
    · subst hkey
      simp only [SlotRecord.payloads,List.map_append,List.mem_append,List.map_cons,List.map_nil,
        List.mem_singleton] at hp
      rcases hp with hp | rfl
      · exact Or.inl hp
      · rw [hresult.payload,hsource]
        exact Or.inr rfl
    · exact Or.inl hp

theorem Apart.rejected (h : Apart s hist) (hf : Formed c s) {r : Fin N} {w : Work N} {f : Fault}
    (hw : s.hand r = some w) :
    Apart
      { s with
        switch := s.switch.setReader r .top
        hand := Function.update s.hand r none } (hist ++ [.rejected f]) := by
  refine h.elsewhere ?_ rfl rfl rfl ?_ (h.fits_of_imp fun v hv => underWay_of_handled hv) rfl ?_
  · refine (Multiset.le_add_right _ {w.ticket}).trans (le_of_eq ?_)
    exact tickets_handled hw (hf.hand r w hw).1 rfl rfl rfl rfl rfl
  · intro r' x hx
    by_cases hr : r' = r
    · subst hr
      simp [ReaderPos.due] at hx
    · simpa [hr] using hx
  · simp [Event.aboutQueue]

theorem Apart.computed (h : Apart s hist) {j : ℕ} {w : Work N} (hw : s.inputs[j]? = some w)
    (m : Msg) :
    Apart
      { s with
        inputs := s.inputs.eraseIdx j
        results := s.results ++ [{ w with msg := m }] } (hist ++ []) := by
  refine h.elsewhere (le_of_eq ?_) rfl rfl rfl (fun r x hx => hx) ?_ rfl (by simp)
  · exact tickets_computed hw rfl rfl rfl rfl rfl rfl
  · rintro v (hv | hv | hv)
    · exact h.work v (Or.inl (List.mem_of_mem_eraseIdx hv))
    · rcases List.mem_append.mp hv with hv | hv
      · exact h.work v (Or.inr (Or.inl hv))
      · -- A result is for the slot its input was for.
        obtain rfl := List.mem_singleton.mp hv
        exact h.work w (Or.inl (List.mem_of_getElem? hw))
    · exact h.work v (Or.inr (Or.inr hv))

theorem Apart.delivered (h : Apart s hist) (hf : Formed c s) {j : ℕ} {w : Work N}
    (hw : s.results[j]? = some w) (hpos : s.switch.reader w.expert = .reading) :
    Apart
      { s with
        switch := s.switch.setReader w.expert (.got w.msg)
        results := s.results.eraseIdx j
        hand := Function.update s.hand w.expert (some w) } (hist ++ []) := by
  have hhand : s.hand w.expert = none := by
    cases hhand : s.hand w.expert with
    | none => rfl
    | some v =>
      have hgot := (hf.hand _ v hhand).1
      rw [hpos] at hgot
      cases hgot
  refine h.elsewhere (le_of_eq ?_) rfl rfl rfl ?_ ?_ rfl (by simp)
  · exact tickets_delivered hw hhand hpos rfl rfl rfl rfl rfl
  · intro r x hx
    by_cases hr : r = w.expert
    · subst hr
      simp [ReaderPos.due] at hx
    · simpa [hr] using hx
  · rintro v (hv | hv | ⟨g,hv⟩)
    · exact h.work v (Or.inl hv)
    · exact h.work v (Or.inr (Or.inl (List.mem_of_mem_eraseIdx hv)))
    · dsimp only at hv
      rw [Function.update_apply] at hv
      split_ifs at hv
      · cases hv
        exact h.work w (Or.inr (Or.inl (List.mem_of_getElem? hw)))
      · exact h.work v (Or.inr (Or.inr ⟨g,hv⟩))

theorem WorkMove.apart (hm : WorkMove c s s' ev) (hf : Formed c s)
    (hfans : ∀ h, (s.switch.reader h).Fans) (hslots : SlotsOk N s.switch.combineQueue hist)
    (h : Apart s hist) : Apart s' (hist ++ ev) := by
  cases hm with
  | still _ _ hstill => exact hstill.apart hslots h
  | created r m targets hpos hsep => exact h.created c.hosts_le hpos (hfans r) hsep
  | sent r m g rest ts hpos hsep => exact h.sent hpos hsep
  | cleared r m g rest hpos hsep => exact h.cleared hpos hsep rfl
  | accepted r w queue hw hres => exact h.accepted hf hw hres rfl
  | rejected r w f hw => exact h.rejected hf hw
  | computed j w ts hw => exact h.computed hw _
  | delivered j w hw hpos => exact h.delivered hf hw hpos

/-- While the work of different slots stays apart, so do their tickets. -/
theorem apart_of_run (hr : RunOn (redispatchMachine c) Separate s hist) : Apart s hist := by
  induction hr with
  | start hi =>
    cases hi
    exact Apart.initial
  | next hr hok hs ih =>
    have hf := formed_of_run hr
    have hrun := redispatch_switch hr
    exact (redispatch_move hf hok hs).apart hf (fans_of_run hrun) (slotsOk_of_run hrun) ih

/-- The sum of what the experts of `ranks` make of the newest DISPATCH_TOKEN of `k`. -/
def Redispatch.latestSum (s : Redispatch N) (k : CombineKey) (ranks : List ℕ) (n : ℕ) : Bytes :=
  Bytes.sum n (ranks.map fun _ => expertOutput (s.latest k).payload)

theorem Apart.data (h : Apart s hist) (hslots : SlotsOk N s.switch.combineQueue hist)
    {k : CombineKey} {slot : QueueSlot} (hk : s.switch.combineQueue k = some slot) :
    slot.data = s.latestSum k (record k hist).ranks slot.payloadLen.toNat := by
  have hpayloads : (record k hist).payloads =
      (record k hist).ranks.map fun _ => expertOutput (s.latest k).payload := by
    rw [SlotRecord.ranks,List.map_map]
    apply List.map_congr_left
    intro x hx
    exact h.payloads k slot hk x.2 (List.mem_map_of_mem hx)
  rw [Redispatch.latestSum,← hpayloads]
  exact (hslots k slot hk).sum

theorem redispatch_queueStep {a : RedispatchAction N}
    (hs : redispatchStep c s a = some (s',ev)) :
    QueueStep N s.switch.combineQueue ev s'.switch.combineQueue := by
  cases redispatchStep_move hs with
  | switch hfor hstep =>
    rw [afterSwitch_switch]
    exact (switchStep_move hstep).queueStep
  | compute ts hw => exact .keep (by simp)
  | deliver hw hpos => exact .keep (by simp)

/-- A key may be dispatched again while work for its earlier slots is under way.  As long as that
work stays apart from the newer slots, exactly the results for the newest slot are accepted, and what
a slot holds and a COMBINE_RESULT returns is the sum of what experts made of the newest payload. -/
theorem generations_apart (hr : RunOn (redispatchMachine c) Separate s hist) :
    (∀ h m, s.switch.reader h = .got m → m.header.kind = some .expertResult →
      ∃ w, s.hand h = some w ∧ w.msg = m ∧ w.IsResult c ∧
        (w.gen = s.gen w.key → w.source = s.latest w.key) ∧
        ((∃ queue, handleExpertResult s.switch.combineQueue m = .ok queue) ↔
          w.gen = s.gen w.key)) ∧
    (∀ k slot, s.switch.combineQueue k = some slot → (record k hist).ranks.Nodup ∧
      slot.data = s.latestSum k (record k hist).ranks slot.payloadLen.toNat) ∧
    (∀ a s' ev k bitmap data, redispatchStep c s a = some (s',ev) → .taken k bitmap data ∈ ev →
      data = s.latestSum k (record k hist).ranks data.size) ∧
    ∀ g m, .toHost g m ∈ hist → m.header.kind = some .combineResult →
      .taken (makeKey m.header) m.header.expertBitmap m.payload ∈ hist := by
  have hrun := redispatch_switch hr
  have hf := formed_of_run hr
  have happart := apart_of_run hr
  have hslots := slotsOk_of_run hrun
  refine ⟨?_,?_,?_,(resultsTaken_of_run hrun).sent⟩
  · intro h m hgot hkind
    obtain ⟨w,hw⟩ := hf.held h m hgot hkind
    obtain ⟨hpos,-,hresult⟩ := hf.hand h w hw
    rw [hgot] at hpos
    cases hpos
    have hfits := happart.work w (Or.inr (Or.inr ⟨h,hw⟩))
    exact ⟨w,hw,rfl,hresult,hfits.1,happart.accepted_iff hf hw⟩
  · intro k slot hk
    exact ⟨(hslots k slot hk).once,happart.data hslots hk⟩
  · intro a s' ev k bitmap data hs htaken
    obtain ⟨slot,hslot,-,-,rfl,-⟩ := (redispatch_queueStep hs).taken_from htaken
    rw [(hslots k slot hslot).size]
    exact happart.data hslots hslot

def sampleRedispatch (n : ℕ) : Msg where
  header := { sampleDispatch.header with payloadLen := BitVec.ofNat 32 n }
  payload := Bytes.tabulate n fun _ => 7

def soloReaderGo (n : ℕ) : List (RedispatchAction 1) :=
  List.replicate n (.switch (.reader 0 (.go 0)))

def soloFanOut (m : Msg) : List (RedispatchAction 1) :=
  soloReaderGo 1 ++ [.switch (.reader 0 (.recv m))] ++ soloReaderGo 4 ++
  [.switch (.reader 0 (.sent true))] ++ soloReaderGo 1 ++ [.switch (.reader 0 (.sent true))]

/-- Two dispatches, both results, the older first, and a pull that has been received. -/
def soloOverwrite (n : ℕ) : List (RedispatchAction 1) :=
  [.switch (.accept 0),.switch (.start 0)] ++ soloFanOut sampleDispatch ++
  soloFanOut (sampleRedispatch n) ++ [.compute 0 0,.compute 0 0] ++ soloReaderGo 1 ++ [.deliver 0] ++
  soloReaderGo 2 ++ [.deliver 0] ++ soloReaderGo 2 ++ [.switch (.reader 0 (.recv samplePull))]

/-- The pull takes the second slot, whose data starts with `got` where the newest payload would
have given `want`. -/
def takesNext (got want : Byte) (s : Redispatch 1) (hist : List (Event 1)) : Bool :=
  match redispatchStep (soloConfig .fourLoops 1) s (.switch (.reader 0 (.go 0))) with
  | some (_,[.taken k _ data]) => s.gen k = 2 && data.get 0 = got &&
      (s.latestSum k (record k hist).ranks data.size).get 0 = want
  | _ => false

theorem exists_of_takesNext {got want : Byte} {s : Redispatch 1} {hist : List (Event 1)}
    (h : takesNext got want s hist = true) :
    ∃ s' k bitmap data, redispatchStep (soloConfig .fourLoops 1) s (.switch (.reader 0 (.go 0))) =
      some (s',[.taken k bitmap data]) ∧ s.gen k = 2 ∧ data.get 0 = got ∧
      (s.latestSum k (record k hist).ranks data.size).get 0 = want := by
  unfold takesNext at h
  split at h
  · rename_i s' k bitmap data hs
    simp only [Bool.and_eq_true,decide_eq_true_eq] at h
    exact ⟨s',k,bitmap,data,hs,h.1.1,h.1.2,h.2⟩
  · cases h

def Event.rejects (f : Fault) : Event N → Bool
  | .rejected f' => f' = f
  | _ => false

theorem mem_of_rejects {f : Fault} (h : hist.any (Event.rejects f) = true) :
    .rejected f ∈ hist := by
  obtain ⟨e,hmem,he⟩ := List.any_eq_true.mp h
  cases e with
  | rejected f' =>
    obtain rfl := of_decide_eq_true he
    exact hmem
  | _ => cases he

/-- With two payloads of one length the older result is taken for the newer one, and the newer
result is then rejected. -/
theorem generations_mixed : ∃ (s s' : Redispatch 1) (hist : List (Event 1)) (k : CombineKey)
    (bitmap : U64) (data : Bytes), Run (redispatchMachine (soloConfig .fourLoops 1)) s hist ∧
    .rejected .overwritingSlot ∈ hist ∧ .rejected .duplicateOrUnexpected ∈ hist ∧ s.gen k = 2 ∧
    redispatchStep (soloConfig .fourLoops 1) s (.switch (.reader 0 (.go 0))) =
      some (s',[.taken k bitmap data]) ∧
    data ≠ s.latestSum k (record k hist).ranks data.size := by
  obtain ⟨s,hist,hrun,hp⟩ := exists_run_of_replay (redispatchMachine (soloConfig .fourLoops 1))
    (fun _ _ => true) Redispatch.initial (soloOverwrite 1)
    (fun s hist => takesNext 10 14 s hist && hist.any (Event.rejects .overwritingSlot) &&
      hist.any (Event.rejects .duplicateOrUnexpected)) rfl (by decide +kernel)
  simp only [Bool.and_eq_true] at hp
  obtain ⟨⟨htakes,hover⟩,hrejected⟩ := hp
  obtain ⟨s',k,bitmap,data,hs,hgen,hgot,hwant⟩ := exists_of_takesNext htakes
  refine ⟨s,s',hist,k,bitmap,data,hrun.run,mem_of_rejects hover,mem_of_rejects hrejected,hgen,hs,?_⟩
  intro heq
  rw [← heq,hgot] at hwant
  cases hwant

/-- A check that is enough for a step to keep work apart. -/
def separateCheck (s : Redispatch N) : RedispatchAction N → Bool
  | .switch (.reader h (.go _)) =>
    match s.switch.reader h with
    | .looking m [] _ =>
      (s.inputs ++ s.results).all (fun w => w.source.payload.size ≠ m.payload.size) &&
        (List.finRange N).all fun g => (s.hand g).isNone
    | .clearing _ _ _ => false
    | _ => true
  | .switch (.reader h (.sent true)) =>
    match s.switch.reader h with
    | .dispatching m (_::_) => s.call h = s.gen (makeKey m.header)
    | _ => true
  | _ => true

theorem separate_of_check {a : RedispatchAction N} (h : separateCheck s a = true) :
    Separate s a := by
  unfold separateCheck at h
  unfold Separate
  split
  · split
    · rename_i m targets hpos
      simp only [hpos,Bool.and_eq_true,List.all_eq_true,decide_eq_true_eq,List.mem_append,
        List.mem_finRange,forall_const,Option.isNone_iff_eq_none] at h
      rintro w (hw | hw | ⟨g,hw⟩) - -
      · exact h.1 w (Or.inl hw)
      · exact h.1 w (Or.inr hw)
      · rw [h.2 g] at hw
        cases hw
    · rename_i hpos
      simp [hpos] at h
    · trivial
  · split
    · rename_i m g rest hpos
      simp only [hpos,decide_eq_true_eq] at h
      exact fun hold => absurd h hold
    · trivial
  · trivial

/-- With payloads of different lengths the older result is rejected instead. -/
theorem generations_apart_sample : ∃ (s s' : Redispatch 1) (hist : List (Event 1)) (k : CombineKey)
    (bitmap : U64) (data : Bytes),
    RunOn (redispatchMachine (soloConfig .fourLoops 1)) Separate s hist ∧
    .rejected .overwritingSlot ∈ hist ∧ .rejected .sizeMismatch ∈ hist ∧ s.gen k = 2 ∧
    redispatchStep (soloConfig .fourLoops 1) s (.switch (.reader 0 (.go 0))) =
      some (s',[.taken k bitmap data]) ∧ data.get 0 = 14 ∧
    data = s.latestSum k (record k hist).ranks data.size := by
  obtain ⟨s,hist,hrun,hp⟩ := exists_run_of_replay (redispatchMachine (soloConfig .fourLoops 1))
    separateCheck Redispatch.initial (soloOverwrite 2)
    (fun s hist => takesNext 14 14 s hist && hist.any (Event.rejects .overwritingSlot) &&
      hist.any (Event.rejects .sizeMismatch)) rfl (by decide +kernel)
  simp only [Bool.and_eq_true] at hp
  obtain ⟨⟨htakes,hover⟩,hrejected⟩ := hp
  obtain ⟨s',k,bitmap,data,hs,hgen,hgot,-⟩ := exists_of_takesNext htakes
  have hsep := hrun.weaken fun s a => separate_of_check
  exact ⟨s,s',hist,k,bitmap,data,hsep,mem_of_rejects hover,mem_of_rejects hrejected,hgen,hs,hgot,
    (generations_apart hsep).2.2.1 _ s' _ k bitmap data hs (List.mem_singleton.mpr rfl)⟩

end INA2A

import INA2A.Lib.Inventory
import INA2A.Redispatch

/-! Generations of a slot.  Everything that is to come of a dispatch call is a ticket for an
expert, and no step copies a ticket.  Where the work of different slots stays apart, whoever has a
ticket for the newest slot of a key is awaited there. -/
namespace INA2A

open ByteBuffers BitWords EventMachine Inventory

variable {N : ℕ} {c : Config N} {s s' : Redispatch N} {hist ev : List (Event N)}

/-- The key and the expert of a piece of work, and the slot it is for. -/
abbrev Ticket (N : ℕ) := CombineKey × Fin N × ℕ

def Work.ticket (w : Work N) : Ticket N := (w.key,w.expert,w.gen)

/-- The ticket of an EXPERT_INPUT that the call creating slot `n` has still to send. -/
def dueTicket (n : ℕ) (x : Msg × Fin N) : Ticket N := (makeKey x.1.header,x.2,n)

def Redispatch.readerTickets (s : Redispatch N) (h : Fin N) : Multiset (Ticket N) :=
  bag (dueTicket (s.call h)) (s.switch.reader h).due + bag Work.ticket (s.hand h).toList

def Redispatch.tickets (s : Redispatch N) : Multiset (Ticket N) :=
  ∑ h, s.readerTickets h + bag Work.ticket s.inputs + bag Work.ticket s.results

theorem Redispatch.UnderWay.ticket_mem {w : Work N} (h : s.UnderWay w) : w.ticket ∈ s.tickets := by
  simp only [Redispatch.tickets,Multiset.mem_add,Multiset.mem_sum,Redispatch.readerTickets]
  rcases h with h | h | ⟨g,hg⟩
  · exact Or.inl (Or.inr (mem_bag.mpr ⟨w,h,rfl⟩))
  · exact Or.inr (mem_bag.mpr ⟨w,h,rfl⟩)
  · exact Or.inl (Or.inl ⟨g,Finset.mem_univ g,Or.inr (mem_bag.mpr ⟨w,by simp [hg],rfl⟩)⟩)

theorem due_ticket_mem {h : Fin N} {x : Msg × Fin N} (hx : x ∈ (s.switch.reader h).due) :
    dueTicket (s.call h) x ∈ s.tickets := by
  simp only [Redispatch.tickets,Multiset.mem_add,Multiset.mem_sum,Redispatch.readerTickets]
  exact Or.inl (Or.inl ⟨h,Finset.mem_univ h,Or.inl (mem_bag.mpr ⟨x,hx,rfl⟩)⟩)

theorem sum_readerTickets {h : Fin N} {A B : Multiset (Ticket N)}
    (hreader : ∀ g, g ≠ h → s'.switch.reader g = s.switch.reader g)
    (hcall : ∀ g, g ≠ h → s'.call g = s.call g) (hhand : ∀ g, g ≠ h → s'.hand g = s.hand g)
    (hself : s'.readerTickets h + A = s.readerTickets h + B) :
    ∑ g, s'.readerTickets g + A = ∑ g, s.readerTickets g + B := by
  refine sum_of_exchange (exchange_of_place (p:=h) ?_ hself)
  intro g hg
  rw [Redispatch.readerTickets,Redispatch.readerTickets,hreader g hg,hcall g hg,hhand g hg]

theorem Still.tickets (h : Still s s' ev) : s'.tickets = s.tickets := by
  simp only [Redispatch.tickets,Redispatch.readerTickets,h.inputs,h.results,h.call,h.hand,h.due]

theorem tickets_created {h : Fin N} {m : Msg} {targets : List (Fin N)}
    (hpos : s.switch.reader h = .looking m [] targets)
    (hswitch : s'.switch = (createSlot s.switch h m targets).1) (hinputs : s'.inputs = s.inputs)
    (hresults : s'.results = s.results) (hhand : s'.hand = s.hand) {n : ℕ}
    (hcall : s'.call = Function.update s.call h n) :
    s'.tickets = s.tickets + bag (dueTicket n) (targets.map (Prod.mk m)) := by
  have hself : s'.readerTickets h + 0 =
      s.readerTickets h + bag (dueTicket n) (targets.map (Prod.mk m)) := by
    simp [Redispatch.readerTickets,hswitch,createSlot,hcall,hhand,hpos,ReaderPos.due,add_comm]
  have hsum := sum_readerTickets (by intro g hg; simp [hswitch,createSlot,hg])
    (by intro g hg; rw [hcall,Function.update_of_ne hg]) (by intro g _; rw [hhand]) hself
  rw [add_zero] at hsum
  rw [Redispatch.tickets,Redispatch.tickets,hinputs,hresults,hsum]
  abel

theorem tickets_sent {h g : Fin N} {m : Msg} {rest : List (Fin N)} {w : Work N}
    (hpos : s.switch.reader h = .dispatching m (g::rest))
    (hreader : s'.switch.reader = Function.update s.switch.reader h (.dispatching m rest))
    (hinputs : s'.inputs = s.inputs ++ [w]) (hw : w.ticket = dueTicket (s.call h) (m,g))
    (hresults : s'.results = s.results) (hhand : s'.hand = s.hand) (hcall : s'.call = s.call) :
    s'.tickets = s.tickets := by
  have hself : s'.readerTickets h + {w.ticket} = s.readerTickets h + 0 := by
    simp [Redispatch.readerTickets,hreader,hcall,hhand,hpos,ReaderPos.due,hw,
      -Multiset.singleton_add]
    abel
  have hsum := sum_readerTickets (by intro g' hg; simp [hreader,hg])
    (by intro g' _; rw [hcall]) (by intro g' _; rw [hhand]) hself
  rw [add_zero] at hsum
  rw [Redispatch.tickets,Redispatch.tickets,hinputs,hresults,bag_append,← hsum]
  simp only [bag_cons,bag_nil]
  abel

theorem tickets_cleared {h g : Fin N} {m : Msg} {rest : List (Fin N)}
    (hpos : s.switch.reader h = .clearing m g rest)
    (hreader : s'.switch.reader = Function.update s.switch.reader h (.dispatching m rest))
    (hinputs : s'.inputs = s.inputs) (hresults : s'.results = s.results) (hhand : s'.hand = s.hand)
    (hcall : s'.call = s.call) : s'.tickets + {dueTicket (s.call h) (m,g)} = s.tickets := by
  have hself : s'.readerTickets h + {dueTicket (s.call h) (m,g)} = s.readerTickets h + 0 := by
    simp [Redispatch.readerTickets,hreader,hcall,hhand,hpos,ReaderPos.due,
      -Multiset.singleton_add]
    abel
  have hsum := sum_readerTickets (by intro g' hg; simp [hreader,hg])
    (by intro g' _; rw [hcall]) (by intro g' _; rw [hhand]) hself
  rw [add_zero] at hsum
  rw [Redispatch.tickets,Redispatch.tickets,hinputs,hresults,← hsum]
  abel

theorem tickets_handled {h : Fin N} {w : Work N} (hw : s.hand h = some w)
    (hpos : s.switch.reader h = .got w.msg)
    (hreader : s'.switch.reader = Function.update s.switch.reader h .top)
    (hinputs : s'.inputs = s.inputs) (hresults : s'.results = s.results)
    (hhand : s'.hand = Function.update s.hand h none) (hcall : s'.call = s.call) :
    s'.tickets + {w.ticket} = s.tickets := by
  have hself : s'.readerTickets h + {w.ticket} = s.readerTickets h + 0 := by
    simp [Redispatch.readerTickets,hreader,hcall,hhand,hpos,ReaderPos.due,hw]
  have hsum := sum_readerTickets (by intro g' hg; simp [hreader,hg])
    (by intro g' _; rw [hcall]) (by intro g' hg; rw [hhand,Function.update_of_ne hg]) hself
  rw [add_zero] at hsum
  rw [Redispatch.tickets,Redispatch.tickets,hinputs,hresults,← hsum]
  abel

theorem tickets_computed {j : ℕ} {w v : Work N} (hw : s.inputs[j]? = some w)
    (hswitch : s'.switch = s.switch) (hinputs : s'.inputs = s.inputs.eraseIdx j)
    (hresults : s'.results = s.results ++ [v]) (hv : v.ticket = w.ticket)
    (hhand : s'.hand = s.hand) (hcall : s'.call = s.call) : s'.tickets = s.tickets := by
  have hreaders : s'.readerTickets = s.readerTickets := by
    funext h
    rw [Redispatch.readerTickets,Redispatch.readerTickets,hswitch,hcall,hhand]
  rw [Redispatch.tickets,Redispatch.tickets,hreaders,hinputs,hresults,bag_append,
    ← bag_eraseIdx (f := Work.ticket) hw]
  simp only [bag_cons,bag_nil,hv]
  abel

theorem tickets_delivered {j : ℕ} {w : Work N} (hw : s.results[j]? = some w)
    (hhand : s.hand w.expert = none) (hpos : s.switch.reader w.expert = .reading)
    (hswitch : s'.switch = s.switch.setReader w.expert (.got w.msg)) (hinputs : s'.inputs = s.inputs)
    (hresults : s'.results = s.results.eraseIdx j)
    (hhand' : s'.hand = Function.update s.hand w.expert (some w)) (hcall : s'.call = s.call) :
    s'.tickets = s.tickets := by
  have hself : s'.readerTickets w.expert + 0 = s.readerTickets w.expert + {w.ticket} := by
    simp [Redispatch.readerTickets,hswitch,hcall,hhand,hhand',hpos,ReaderPos.due]
  have hsum := sum_readerTickets (by intro g hg; simp [hswitch,hg])
    (by intro g _; rw [hcall]) (by intro g hg; rw [hhand',Function.update_of_ne hg]) hself
  rw [add_zero] at hsum
  rw [Redispatch.tickets,Redispatch.tickets,hinputs,hresults,hsum,
    ← bag_eraseIdx (f := Work.ticket) hw]
  abel

/-- Work for the newest slot of its key comes from that slot's DISPATCH_TOKEN, and older work does
not have the length of a slot that waits for its expert. -/
def Redispatch.Fits (s : Redispatch N) (w : Work N) : Prop :=
  (w.gen = s.gen w.key → w.source = s.latest w.key) ∧
  (w.gen ≠ s.gen w.key → ∀ slot, s.Awaits w.key w.expert slot →
    w.source.payload.size ≠ slot.payloadLen.toNat)

structure Apart (s : Redispatch N) (hist : List (Event N)) : Prop where
  once : s.tickets.Nodup
  known : ∀ t ∈ s.tickets, t.2.2 ≤ s.gen t.1
  awaited : ∀ k g, (k,g,s.gen k) ∈ s.tickets → ∃ slot, s.Awaits k g slot
  due : ∀ h, ∀ x ∈ (s.switch.reader h).due, s.call h = s.gen (makeKey x.1.header) →
    x.1 = s.latest (makeKey x.1.header)
  work : ∀ w, s.UnderWay w → s.Fits w
  length : ∀ k slot, s.switch.combineQueue k = some slot →
    slot.payloadLen.toNat = (s.latest k).payload.size
  payloads : ∀ k slot, s.switch.combineQueue k = some slot → ∀ p ∈ (record k hist).payloads,
    p = expertOutput (s.latest k).payload

/-- `s'` has no slot that `s` has not, and none of them waits for more experts. -/
def Redispatch.Shrinks (s s' : Redispatch N) : Prop :=
  ∀ k slot', s'.switch.combineQueue k = some slot' → ∃ slot, s.switch.combineQueue k = some slot ∧
    slot'.payloadLen = slot.payloadLen ∧
    ∀ e, slot'.pendingBitmap.getLsbD e = true → slot.pendingBitmap.getLsbD e = true

theorem Apart.initial : Apart (Redispatch.initial (N:=N)) [] := by
  have hempty : (Redispatch.initial (N:=N)).tickets = 0 := by
    simp [Redispatch.tickets,Redispatch.readerTickets,Redispatch.initial,Switch.initial,
      ReaderPos.due]
  refine ⟨?_,?_,?_,?_,?_,?_,?_⟩
  · simp [hempty]
  · simp [hempty]
  · simp [hempty]
  · intro h x hx
    cases hx
  · rintro w (hw | hw | ⟨g,hw⟩) <;> cases hw
  · intro k slot hk
    cases hk
  · intro k slot hk
    cases hk

/-- A step that creates no slot keeps generations apart when the tickets that are left are still
awaited. -/
theorem Apart.onward (h : Apart s hist) (htickets : s'.tickets ≤ s.tickets) (hgen : s'.gen = s.gen)
    (hlatest : s'.latest = s.latest) (hcall : s'.call = s.call)
    (hdue : ∀ h, ∀ x ∈ (s'.switch.reader h).due, x ∈ (s.switch.reader h).due)
    (hwork : ∀ w, s'.UnderWay w → s.Fits w) (hqueue : s.Shrinks s')
    (hkept : ∀ k g slot, s.Awaits k g slot → (k,g,s.gen k) ∈ s'.tickets →
      ∃ slot', s'.Awaits k g slot')
    (hpayloads : ∀ k, ∀ p ∈ (record k (hist ++ ev)).payloads, p ∈ (record k hist).payloads ∨
      p = expertOutput (s.latest k).payload) : Apart s' (hist ++ ev) where
  once := Multiset.nodup_of_le htickets h.once
  known t ht := by
    rw [hgen]
    exact h.known t (Multiset.mem_of_le htickets ht)
  awaited k g ht := by
    rw [hgen] at ht
    obtain ⟨slot,hslot⟩ := h.awaited k g (Multiset.mem_of_le htickets ht)
    exact hkept k g slot hslot ht
  due r x hx hcur := by
    rw [hcall,hgen] at hcur
    rw [hlatest]
    exact h.due r x (hdue r x hx) hcur
  work w hw := by
    have hfits := hwork w hw
    refine ⟨?_,?_⟩
    · rw [hgen,hlatest]
      exact hfits.1
    · rw [hgen]
      intro hold slot' hslot'
      obtain ⟨slot,hslot,hlen,hpending⟩ := hqueue w.key slot' hslot'.1
      rw [hlen]
      exact hfits.2 hold slot ⟨hslot,hpending _ hslot'.2⟩
  length k slot' hk := by
    obtain ⟨slot,hslot,hlen,-⟩ := hqueue k slot' hk
    rw [hlen,hlatest]
    exact h.length k slot hslot
  payloads k slot' hk p hp := by
    obtain ⟨slot,hslot,-⟩ := hqueue k slot' hk
    rw [hlatest]
    rcases hpayloads k p hp with hp | hp
    · exact h.payloads k slot hslot p hp
    · exact hp

theorem Apart.elsewhere (h : Apart s hist) (htickets : s'.tickets ≤ s.tickets)
    (hgen : s'.gen = s.gen) (hlatest : s'.latest = s.latest) (hcall : s'.call = s.call)
    (hdue : ∀ h, ∀ x ∈ (s'.switch.reader h).due, x ∈ (s.switch.reader h).due)
    (hwork : ∀ w, s'.UnderWay w → s.Fits w)
    (hqueue : s'.switch.combineQueue = s.switch.combineQueue)
    (hev : ∀ e ∈ ev, e.aboutQueue = false) : Apart s' (hist ++ ev) := by
  refine h.onward htickets hgen hlatest hcall hdue hwork ?_ ?_ ?_
  · intro k slot hk
    rw [hqueue] at hk
    exact ⟨slot,hk,rfl,fun _ he => he⟩
  · intro k g slot hslot _
    refine ⟨slot,?_,hslot.2⟩
    rw [hqueue]
    exact hslot.1
  · intro k p hp
    rw [record_append,foldl_recordStep_of_not_aboutQueue k _ hev] at hp
    exact Or.inl hp

theorem Apart.fits_of_imp (h : Apart s hist) (himp : ∀ w, s'.UnderWay w → s.UnderWay w) :
    ∀ w, s'.UnderWay w → s.Fits w := fun w hw => h.work w (himp w hw)

theorem Still.apart (hstill : Still s s' ev) (hslots : SlotsOk N s.switch.combineQueue hist)
    (h : Apart s hist) : Apart s' (hist ++ ev) := by
  apply h.onward (le_of_eq hstill.tickets) hstill.gen hstill.latest hstill.call
  · intro r x hx
    rwa [hstill.due] at hx
  · apply h.fits_of_imp
    intro w hw
    rwa [Redispatch.UnderWay,hstill.inputs,hstill.results,hstill.hand] at hw
  · intro k slot' hk
    exact ⟨slot',hstill.queue k slot' hk,rfl,fun _ he => he⟩
  · intro k g slot hslot _
    refine ⟨slot,hstill.kept k slot hslot.1 ?_,hslot.2⟩
    -- A slot that waits for somebody is not ready, so no pull takes it.
    rw [← Bool.not_eq_true,(hslots k slot hslot.1).ready]
    intro hzero
    have hbit := hslot.2
    rw [hzero] at hbit
    simp at hbit
  · intro k p hp
    rw [record_append,hstill.unrecorded] at hp
    exact Or.inl hp

section
variable {f : QueueSlot → QueueSlot} {key : CombineKey} {g : ℕ}

theorem shrinks_of_update (hqueue : s'.switch.combineQueue =
      Function.update s.switch.combineQueue key ((s.switch.combineQueue key).map f))
    (hlen : ∀ slot, (f slot).payloadLen = slot.payloadLen)
    (hpending : ∀ slot, (f slot).pendingBitmap = clear slot.pendingBitmap g) : s.Shrinks s' := by
  intro k slot' hk
  rw [hqueue] at hk
  by_cases hkey : k = key
  · subst hkey
    rw [Function.update_self] at hk
    obtain ⟨slot,hslot,rfl⟩ := Option.map_eq_some_iff.mp hk
    refine ⟨slot,hslot,hlen slot,?_⟩
    intro e he
    rw [hpending,getLsbD_clear] at he
    exact (Bool.and_eq_true_iff.mp he).1
  · rw [Function.update_of_ne hkey] at hk
    exact ⟨slot',hk,rfl,fun _ he => he⟩

theorem awaits_of_update (hqueue : s'.switch.combineQueue =
      Function.update s.switch.combineQueue key ((s.switch.combineQueue key).map f))
    (hpending : ∀ slot, (f slot).pendingBitmap = clear slot.pendingBitmap g)
    {k : CombineKey} {e : Fin N} {slot : QueueSlot} (hslot : s.Awaits k e slot)
    (hne : k = key → e.val ≠ g) : ∃ slot', s'.Awaits k e slot' := by
  by_cases hkey : k = key
  · subst hkey
    refine ⟨f slot,?_,?_⟩
    · rw [hqueue,Function.update_self,hslot.1]
      rfl
    · rw [hpending,getLsbD_clear,hslot.2]
      simpa using hne rfl
  · refine ⟨slot,?_,hslot.2⟩
    rw [hqueue,Function.update_of_ne hkey]
    exact hslot.1

theorem Apart.settled (h : Apart s hist) {e : Fin N} (hqueue : s'.switch.combineQueue =
      Function.update s.switch.combineQueue key ((s.switch.combineQueue key).map f))
    (hlen : ∀ slot, (f slot).payloadLen = slot.payloadLen)
    (hpending : ∀ slot, (f slot).pendingBitmap = clear slot.pendingBitmap e)
    (htickets : s'.tickets ≤ s.tickets) (hgone : (key,e,s.gen key) ∉ s'.tickets)
    (hgen : s'.gen = s.gen) (hlatest : s'.latest = s.latest) (hcall : s'.call = s.call)
    (hdue : ∀ h, ∀ x ∈ (s'.switch.reader h).due, x ∈ (s.switch.reader h).due)
    (hwork : ∀ w, s'.UnderWay w → s.UnderWay w)
    (hpayloads : ∀ k, ∀ p ∈ (record k (hist ++ ev)).payloads, p ∈ (record k hist).payloads ∨
      p = expertOutput (s.latest k).payload) : Apart s' (hist ++ ev) := by
  refine h.onward htickets hgen hlatest hcall hdue (h.fits_of_imp hwork)
    (shrinks_of_update hqueue hlen hpending) ?_ hpayloads
  intro k g slot hslot hmem
  refine awaits_of_update hqueue hpending hslot ?_
  rintro rfl heq
  rw [Fin.ext heq] at hmem
  exact hgone hmem

end

theorem clearTarget_eq_update (queue : CombineQueue) (key : CombineKey) (rank : ℕ) :
    clearTarget queue key rank =
      Function.update queue key ((queue key).map fun slot => slot.clearPending rank) := by
  unfold clearTarget
  split
  · rename_i hnone
    rw [hnone,Option.map_none,← hnone,Function.update_eq_self]
  · rename_i slot hslot
    rw [hslot,Option.map_some]

theorem record_cleared (k key : CombineKey) (queue : CombineQueue) (rank : ℕ) :
    (record k (hist ++ clearedEvents queue key rank)).payloads = (record k hist).payloads := by
  rw [record_append]
  unfold clearedEvents
  split
  · rfl
  · split_ifs
    · simp only [List.foldl_cons,List.foldl_nil,recordStep]
      split_ifs <;> rfl
    · rfl

end INA2A

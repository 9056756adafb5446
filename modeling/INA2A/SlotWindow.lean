import INA2A.Combine

/-! The window of a host bounds what the switch holds for it. -/
namespace INA2A

open ByteBuffers BitWords EventMachine

variable {N : ℕ} {c : Config N} {s : System N} {p : Progress (Fin N) U64} {h : Fin N}

/-- The keys of the slots that the switch holds for tokens of `h`. -/
def slotKeys (s : System N) (h : Fin N) : Set CombineKey :=
  {k | ∃ slot, s.switch.combineQueue k = some slot ∧ slot.originRank = BitVec.ofNat 32 h}

theorem Follows.slot_token (hf : Follows c s p) {k : CombineKey} {slot : QueueSlot}
    (hk : s.switch.combineQueue k = some slot) :
    ∃ h i W, i < c.num h ∧ k = c.key h i ∧ slot = c.slot h i W ∧ (p.stage h i).live = true := by
  obtain ⟨h,i,hi,rfl⟩ := hf.foreign k (by rw [hk]; rfl)
  have hslot := hf.slots h i hi
  rw [hk] at hslot
  split_ifs at hslot with hlive
  exact ⟨h,i,p.waiting h i,hi,rfl,Option.some.inj hslot,hlive⟩

theorem Stage.not_raw_of_live {H T : Type} {σ : Stage H T} (hlive : σ.live = true) : σ ≠ .raw := by
  rintro rfl
  simp [Stage.live,Stage.early] at hlive

theorem Stage.not_done_of_live {H T : Type} {σ : Stage H T} (hlive : σ.live = true) :
    σ.isDone = false := by
  cases σ <;> simp [Stage.live,Stage.early,Stage.late,Stage.isDone] at hlive ⊢

/-- A token with a slot is in the window of its host. -/
theorem Orderly.window_of_live (hp : Orderly c.plan p) {i : ℕ} (hlive : (p.stage h i).live = true) :
    p.base h ≤ i ∧ i < p.next h := by
  constructor
  · by_contra hlt
    have hdone := hp.base_done h i (by omega)
    simpa [hdone,Stage.isDone] using Stage.not_done_of_live hlive
  · by_contra hle
    exact Stage.not_raw_of_live hlive ((hp.raw h i).mpr (by omega))

theorem rank_injective (c : Config N) {h g : Fin N}
    (heq : BitVec.ofNat 32 h.val = BitVec.ofNat 32 g.val) : h = g := by
  have hnat := congrArg BitVec.toNat heq
  rw [rank_toNat c,rank_toNat c] at hnat
  exact Fin.ext hnat

/-- What may be relied on about the slots of the switch. -/
structure WindowBounds (c : Config N) (s : System N) : Prop where
  /-- Each slot belongs to an admitted and unreleased token that has no result yet. -/
  token : ∀ k slot, s.switch.combineQueue k = some slot → ∃ (h : Fin N) (i : ℕ) (st : TokenWindowState),
    slot.originRank = BitVec.ofNat 32 h ∧ slot.globalIdx = BitVec.ofNat 64 i ∧ k = c.key h i ∧
    (s.host h).windowBase ≤ i ∧ i < (s.host h).nextToAdmit ∧
    (s.host h).tokenStates[i]? = some st ∧ st.combineDone = false
  distinct : ∀ k k' slot slot', s.switch.combineQueue k = some slot →
    s.switch.combineQueue k' = some slot' → slot.originRank = slot'.originRank →
    slot.globalIdx = slot'.globalIdx → k = k'
  finite : ∀ h, (slotKeys s h).Finite
  count : ∀ h, (slotKeys s h).ncard ≤ (c.args h).windowSize.toNat

theorem slotKeys_subset (hf : Follows c s p) (hp : Orderly c.plan p) (h : Fin N) :
    slotKeys s h ⊆ ((Finset.Ico (p.base h) (p.next h)).image (c.key h) : Set CombineKey) := by
  rintro k ⟨slot,hk,horigin⟩
  obtain ⟨g,i,W,hi,rfl,rfl,hlive⟩ := hf.slot_token hk
  obtain rfl : g = h := rank_injective c horigin
  exact Finset.mem_image_of_mem _ (Finset.mem_Ico.mpr (hp.window_of_live hlive))

theorem window_bounds_slots (c : Config N) {s : System N} {hist : List (Event N)}
    (hr : Run (systemMachine c) s hist) : WindowBounds c s := by
  obtain ⟨p,hf,hp⟩ := exists_progress hr
  refine ⟨?_,?_,?_,?_⟩
  · intro k slot hk
    obtain ⟨h,i,W,hi,rfl,rfl,hlive⟩ := hf.slot_token hk
    have hm := hf.hosts h
    obtain ⟨hbase,hnext⟩ := hp.window_of_live hlive
    have hlen : i < (s.host h).tokenStates.length := by rwa [hm.length]
    refine ⟨h,i,_,rfl,rfl,rfl,by rwa [hm.base],by rwa [hm.next],List.getElem?_eq_getElem hlen,?_⟩
    rw [(hm.tokens i _ (List.getElem?_eq_getElem hlen)).combineDone]
    exact Stage.not_done_of_live hlive
  · intro k k' slot slot' hk hk' horigin hidx
    obtain ⟨h,i,W,hi,rfl,rfl,-⟩ := hf.slot_token hk
    obtain ⟨g,j,W',hj,rfl,rfl,-⟩ := hf.slot_token hk'
    obtain rfl : h = g := rank_injective c horigin
    have hnat := congrArg BitVec.toNat (show BitVec.ofNat 64 i = BitVec.ofNat 64 j from hidx)
    rw [index_toNat c hi,index_toNat c hj] at hnat
    rw [hnat]
  · intro h
    exact (Finset.finite_toSet _).subset (slotKeys_subset hf hp h)
  · intro h
    have hsub := Set.ncard_le_ncard (slotKeys_subset hf hp h) (Finset.finite_toSet _)
    rw [Set.ncard_coe_finset] at hsub
    have hcard := Finset.card_image_le (s:=Finset.Ico (p.base h) (p.next h)) (f:=c.key h)
    have hwindow : p.next h ≤ p.base h + (c.args h).windowSize.toNat := hp.next_window h
    rw [Nat.card_Ico] at hcard
    omega

theorem window_bounds_slots_sample : ∃ (s : System 1) (hist : List (Event 1)) (k : CombineKey),
    Run (systemMachine (soloConfig .fourLoops 1)) s hist ∧ k ∈ slotKeys s 0 ∧
    WindowBounds (soloConfig .fourLoops 1) s := by
  obtain ⟨s,hist,hrun,hp⟩ := exists_run_of_replay (systemMachine (soloConfig .fourLoops 1))
    (fun _ _ => true) (System.initial _)
    ([.accept 0,.start 0] ++ soloPush 2 ++ soloCompute ++ soloSend ++ soloReader 9)
    (fun s _ => (s.switch.combineQueue ((soloConfig .fourLoops 1).key 0 0)).any
      fun slot => slot.originRank = 0) rfl (by decide +kernel)
  obtain ⟨slot,hslot,horigin⟩ := (Option.any_eq_true _ _).mp hp
  exact ⟨s,hist,_,hrun.run,⟨slot,hslot,of_decide_eq_true horigin⟩,window_bounds_slots _ hrun.run⟩

end INA2A

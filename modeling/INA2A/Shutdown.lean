import INA2A.Discipline

/-! The end of a run: the switch broadcasts FINISH once, and only when no host has anything
left to do for itself or for another. -/
namespace INA2A

open ByteBuffers BitWords EventMachine Inventory

variable {N : ℕ} {c : Config N} {s s' : System N} {p : Progress (Fin N) U64} {h : Fin N}
variable {hist ev : List (Event N)}

def Event.isBroadcast : Event N → Bool
  | .broadcast => true
  | _ => false

theorem Event.sign_broadcast (e : Event N) :
    (e.sign.map fun x => x == .broadcast).getD false = e.isBroadcast := by
  cases e with
  | toSwitch h m =>
    simp only [Event.sign]
    cases noteUp (N := N) m <;> rfl
  | toHost h m =>
    simp only [Event.sign]
    cases noteDown (N := N) m <;> rfl
  | enqueued h m =>
    simp only [Event.sign]
    cases noteUp (N := N) m <;> rfl
  | dispatched k =>
    simp only [Event.sign]
    split_ifs <;> rfl
  | _ => rfl

theorem count_broadcast (hist : List (Event N)) :
    (hist.filterMap Event.sign).count .broadcast = hist.countP Event.isBroadcast := by
  rw [List.count,List.countP_filterMap]
  exact List.countP_congr fun e _ => by rw [Event.sign_broadcast]

theorem ReaderMove.broadcast {w w' : Switch N} {ts : U64} (hm : ReaderMove w h (.go ts) w' ev)
    (hb : .broadcast ∈ ev) : (∀ r, r ≠ h → w'.reader r = w.reader r) ∧ (w'.reader h).items = 0 := by
  have hvisible : ¬∀ e ∈ ev, e.visible = false := fun hquiet => by
    simpa [Event.visible] using hquiet _ hb
  cases hm with
  | finishLast _ m _ _ _ _ => exact ⟨fun r hr => by simp [hr],by simp [ReaderPos.items]⟩
  | create _ m targets _ _ =>
    refine absurd ?_ hvisible
    unfold createSlot
    dsimp only
    split_ifs <;> simp [Event.visible]
  | clear => exact absurd (clearedEvents_quiet _ _ _) hvisible
  | sendNull => exact absurd (afterSendEvents_quiet _) hvisible
  | _ => simp at hb

theorem reader_broadcast (hf : Follows c s p) {ts : U64}
    (hs : systemReader s h ts = some (s',ev)) (hb : .broadcast ∈ ev) :
    ∀ g, ∀ x ∈ items s' g, x ∈ items s g := by
  cases hf.systemReader_move hs with
  | received hk hq => simp at hb
  | lost hk hclosed => simp at hb
  | sent hwriting htarget =>
    simp only [finishSend,if_true,List.mem_append,List.mem_singleton,reduceCtorEq,false_or] at hb
    simpa [Event.visible] using afterSendEvents_quiet _ _ hb
  | go hr =>
    obtain ⟨hother,hnone⟩ := (readerStep_move hr).broadcast hb
    intro g x hx
    simp only [items] at hx ⊢
    by_cases hg : g = h
    · subst hg
      rw [hnone,add_zero] at hx
      simp only [Multiset.mem_add] at hx ⊢
      tauto
    · rwa [hother g hg] at hx

theorem broadcast_step (hf : Follows c s p) {a : Action N} (hs : systemStep c s a = some (s',ev))
    (hb : .broadcast ∈ ev) : ∀ g, ∀ x ∈ items s' g, x ∈ items s g := by
  have hvisible : ¬∀ e ∈ ev, e.visible = false := fun hquiet => by
    simpa [Event.visible] using hquiet _ hb
  have hswitch : ∀ {b : SwitchAction N}, (∀ h i, b ≠ .reader h i) →
      ¬(switchStep s.switch b).map (fun r => ({ s with switch := r.1 },r.2)) = some (s',ev) := by
    intro b hread hs
    obtain ⟨⟨w,ev'⟩,hr,heq⟩ := Option.map_eq_some_iff.mp hs
    obtain ⟨-,rfl⟩ := Prod.mk.inj heq
    exact hvisible ((switchStep_move hr).quiet hread)
  cases a with
  | accept g => exact absurd hs (hswitch (by simp))
  | start h => exact absurd hs (hswitch (by simp))
  | main => exact absurd hs (hswitch (by simp))
  | host h a =>
    obtain ⟨v,hr,rfl⟩ := systemStep_host hs
    exact absurd (hostStep_quiet hr) hvisible
  | write h =>
    obtain ⟨m,-,-,rfl,-⟩ := hf.hostWrite_move hs
    simp at hb
  | receive h =>
    obtain ⟨frame,rest,-,-,rfl,-⟩ := hf.hostReceive_move hs
    simp at hb
  | reader h ts => exact reader_broadcast hf hs hb

/-- Nothing is left to do or under way anywhere. -/
structure Quiescent (c : Config N) (s : System N) : Prop where
  combineDone : ∀ h (t : ℕ) st, (s.host h).tokenStates[t]? = some st → st.combineDone = true
  receivedCombines : ∀ h, (s.host h).receivedCombines = (c.env h).numTokens
  combineQueue : ∀ k, s.switch.combineQueue k = none
  computeQueue : ∀ h, (s.host h).computeQueue.items = []
  sendQueue : ∀ h, (s.host h).sendQueue.items = []
  toSwitch : ∀ h, s.toSwitch h = []
  toHost : ∀ h, s.toHost h = []
  hands : ∀ h, items s h = 0

theorem Follows.received (hf : Follows c s p) (hp : Orderly c.plan p)
    (hfin : p.fin h ≠ .unfinished) : (s.host h).receivedCombines = (c.env h).numTokens := by
  rw [(hf.hosts h).received,hp.closing h hfin,env_numTokens]
  rfl

theorem Follows.no_slots (hf : Follows c s p) (hp : Orderly c.plan p) (hall : p.allMarked)
    (k : CombineKey) : s.switch.combineQueue k = none := by
  by_contra hne
  obtain ⟨h,i,hi,rfl⟩ := hf.foreign k (Option.isSome_iff_ne_none.mpr hne)
  rcases (hp.quiescent hall h i).1 with ⟨hst,-⟩ | ⟨-,hge⟩
  · exact hne (by rw [hf.slots h i hi,hst]; rfl)
  · exact absurd hi (Nat.not_lt.mpr hge)

theorem Follows.tokensDone (hf : Follows c s p) (hp : Orderly c.plan p) (hall : p.allMarked)
    {t : ℕ} {st : TokenWindowState} (hst : (s.host h).tokenStates[t]? = some st) :
    st.combineDone = true := by
  have hm := hf.hosts h
  have ht : t < c.num h := by
    rw [← hm.length]
    exact (List.getElem?_eq_some_iff.mp hst).1
  rcases (hp.quiescent hall h t).1 with ⟨hstage,-⟩ | ⟨-,hge⟩
  · rw [(hm.tokens t st hst).combineDone,hstage]
    rfl
  · exact absurd ht (Nat.not_lt.mpr hge)

theorem Follows.quiescent (hf : Follows c s p) (hp : Orderly c.plan p) (hall : p.allMarked)
    (hempty : ∀ h, items s h = 0) : Quiescent c s := by
  have hparts : ∀ h, (((s.host h).sendQueue.items = [] ∧ (s.host h).computeQueue.items = []) ∧
      s.toSwitch h = []) ∧ s.toHost h = [] := by
    intro h
    have h0 := hempty h
    simp only [items,Host.items,add_eq_zero,bag_eq_zero] at h0
    tauto
  exact {
    combineDone := fun h t st hst => hf.tokensDone hp hall hst
    receivedCombines := fun h => hf.received hp (by simp [hall h])
    combineQueue := hf.no_slots hp hall
    computeQueue := fun h => (hparts h).1.1.2
    sendQueue := fun h => (hparts h).1.1.1
    toSwitch := fun h => (hparts h).1.2
    toHost := fun h => (hparts h).2
    hands := hempty }

/-- What may be relied on about the end of a run. -/
structure OrderlyShutdown (c : Config N) (s : System N) (hist : List (Event N)) : Prop where
  once : hist.countP Event.isBroadcast ≤ 1
  atQuiescence : ∀ a s' ev, systemStep c s a = some (s',ev) → .broadcast ∈ ev → Quiescent c s'
  noneDropped : .dropped ∉ hist
  /-- After the broadcast only its FINISH messages are under way. -/
  drained : .broadcast ∈ hist → ∀ h, ∀ x ∈ items s h, ∃ rid ts, x = .down (broadcastFinishMsg rid h ts)
  /-- A host that has left a loop or shut down has received all its results. -/
  received : ∀ h, ¬HostRunning (s.host h) →
    .broadcast ∈ hist ∧ (s.host h).receivedCombines = (c.env h).numTokens
  /-- Until the broadcast every host is running and serves as an expert. -/
  serving : .broadcast ∉ hist → ∀ h, HostRunning (s.host h)

theorem exists_marked (hN : 0 < N) (hr : Run (systemMachine c) s hist) :
    ∃ p, Follows c s p ∧ Orderly c.plan p ∧ hist.countP Event.isBroadcast ≤ 1 ∧
      (.broadcast ∈ hist ↔ p.allMarked) := by
  obtain ⟨p,hf,hc⟩ := exists_course hr
  have : Nonempty (Fin N) := ⟨⟨0,hN⟩⟩
  obtain ⟨hcount,hmarked⟩ := course_broadcast hc
  refine ⟨p,hf,orderly_of_course hc,by rwa [← count_broadcast],?_⟩
  rw [← hmarked,← List.count_pos_iff (a := .broadcast) (l := hist.filterMap Event.sign),
    count_broadcast,List.countP_pos_iff]
  constructor
  · exact fun hmem => ⟨_,hmem,rfl⟩
  · rintro ⟨e,hmem,he⟩
    cases e <;> simp [Event.isBroadcast] at he
    exact hmem

theorem dropped_notMem (hr : Run (systemMachine c) s hist) : .dropped ∉ hist := by
  intro hmem
  obtain ⟨p,-,hc⟩ := exists_course hr
  exact course_fault hc (List.mem_filterMap.mpr ⟨_,hmem,rfl⟩)

theorem orderly_shutdown (c : Config N) (hN : 0 < N) {s : System N} {hist : List (Event N)}
    (hr : Run (systemMachine c) s hist) : OrderlyShutdown c s hist := by
  obtain ⟨p,hf,hp,hcount,hmarked⟩ := exists_marked hN hr
  refine ⟨hcount,?_,dropped_notMem hr,?_,?_,?_⟩
  · intro a s' ev hs hb
    obtain ⟨p',hf',hp',hcount',hmarked'⟩ := exists_marked hN (hr.step hs)
    have hall' : p'.allMarked := hmarked'.mp (List.mem_append_right _ hb)
    have hnone : ¬p.allMarked := by
      rw [← hmarked]
      intro hmem
      have h₁ : 0 < hist.countP Event.isBroadcast := List.countP_pos_iff.mpr ⟨_,hmem,rfl⟩
      have h₂ : 0 < ev.countP Event.isBroadcast := List.countP_pos_iff.mpr ⟨_,hb,rfl⟩
      rw [List.countP_append] at hcount'
      omega
    refine hf'.quiescent hp' hall' ?_
    intro h
    apply Multiset.eq_zero_of_forall_notMem
    intro x hx
    obtain ⟨rid,ts,rfl⟩ := hf'.item_of_allMarked hp' hall' hx
    exact hnone (hf.untagged h _ (broadcast_step hf hs hb h _ hx) rfl).1
  · intro hmem h x hx
    exact hf.item_of_allMarked hp (hmarked.mp hmem) hx
  · intro h hnot
    have hall : p.allMarked := by
      by_contra hne
      exact hnot (hf.hostRunning hne h)
    exact ⟨hmarked.mpr hall,hf.received hp (by simp [hall h])⟩
  · intro hmem h
    exact hf.hostRunning (fun hall => hmem (hmarked.mpr hall)) h

theorem orderly_shutdown_sample : ∃ (s : System 1) (hist : List (Event 1)),
    Run (systemMachine (soloConfig .fourLoops 1)) s hist ∧ .broadcast ∈ hist ∧
    OrderlyShutdown (soloConfig .fourLoops 1) s hist := by
  obtain ⟨s,hist,hrun,hp⟩ := exists_run_of_replay (systemMachine (soloConfig .fourLoops 1))
    (fun _ _ => true) (System.initial _)
    (soloRun ++ soloTick ++ soloPush 2 ++ soloSend ++ soloReader 3)
    (fun _ hist => hist.any Event.isBroadcast) rfl (by decide +kernel)
  obtain ⟨e,hmem,he⟩ := List.any_eq_true.mp hp
  cases e <;> simp [Event.isBroadcast] at he
  exact ⟨s,hist,hrun.run,hmem,orderly_shutdown _ (by decide) hrun.run⟩

end INA2A

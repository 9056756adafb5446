import INA2A.SimulationLoops

/-! Every step of a reader of the switch keeps the relation, and with it every step of the
system. -/
namespace INA2A

open ByteBuffers BitWords EventMachine Inventory

variable {N : ℕ} {c : Config N} {s s' : System N} {p p' : Progress (Fin N) U64} {h : Fin N}
variable {w : Switch N} {ev : List (Event N)}

/-- Reader `h` has moved to position `q`, and only it. -/
structure Moved (w w' : Switch N) (h : Fin N) (q : ReaderPos N) : Prop where
  reader : ∀ r, w'.reader r = if r = h then q else w.reader r
  registered : Registered w'
  looking : LookupsExact q
  clearing : ∀ m g rest, q ≠ .clearing m g rest

theorem SwitchRunning.moved {w w' : Switch N} (hw : SwitchRunning w) {q : ReaderPos N}
    (hmoved : Moved w w' h q) (hq : q.serving = true)
    (hrunning : w'.running = w.running) (hconn : w'.conn = w.conn) (hopened : w'.opened = w.opened)
    (hhosts : w'.hosts = w.hosts) (hmain : w'.main = w.main) : SwitchRunning w' where
  running := hrunning.trans hw.running
  conn := by rw [hconn,hhosts,hw.conn]
  opened := by rw [hopened,hhosts,hw.opened]
  readers r := by
    rw [hmoved.reader]
    split_ifs
    · exact hq
    · exact hw.readers r
  main := hmain.trans hw.main

theorem Follows.switchSide (hf : Follows c s p) {q : ReaderPos N}
    (hmoved : Moved s.switch s'.switch h q) (hhost : s'.host = s.host)
    (hst : Stocked Item.tag (items s') (c.stock p'))
    (hun : ∀ g, ∀ x ∈ items s' g, x.tag = none → x ∈ items s g)
    (hall : p.allMarked → p'.allMarked) (hmatch : ∀ g, HostMatches c p' g (s.host g))
    (hslots : ∀ h i, i < c.num h → s'.switch.combineQueue (c.key h i) =
      if (p'.stage h i).live then some (c.slot h i (p'.waiting h i)) else none)
    (hforeign : ∀ k, (s'.switch.combineQueue k).isSome = true → ∃ h i, i < c.num h ∧ k = c.key h i)
    (hfinished : ∀ h, h ∈ s'.switch.finishedHosts ↔ p'.fin h = .marked)
    (hrun : ¬p'.allMarked → SwitchRunning s'.switch) : Follows c s' p' where
  stocked := hst
  untagged g x hx ht := by
    obtain ⟨hmarked,hdown⟩ := hf.untagged g x (hun g x hx ht) ht
    exact ⟨hall hmarked,hdown⟩
  hosts g := by
    rw [hhost]
    exact hmatch g
  slots := hslots
  foreign := hforeign
  finished := hfinished
  registered := hmoved.registered
  lookups r := by
    rw [hmoved.reader]
    split_ifs
    · exact hmoved.looking
    · exact hf.lookups r
  unfailed r := by
    rw [hmoved.reader]
    split_ifs
    · exact hmoved.clearing
    · exact hf.unfailed r
  hostRunning hne g := by
    rw [hhost]
    exact hf.hostRunning (fun hmarked => hne (hall hmarked)) g
  switchRunning := hrun

theorem items_reader {q : ReaderPos N} (hmoved : Moved s.switch w h q) {A B : Multiset (Item N)}
    (hpos : q.items + A = (s.switch.reader h).items + B) :
    items { s with switch := w } + Pi.single h A = items s + Pi.single h B := by
  apply exchange_of_place
  · intro g hg
    simp only [items,hmoved.reader,if_neg hg]
  · simp only [items,hmoved.reader,if_true]
    rw [show (s.host h).items + bag .wire (s.toSwitch h) + q.items +
      bag .down (s.toHost h) + A = q.items + A + (s.host h).items +
      bag .wire (s.toSwitch h) + bag .down (s.toHost h) by abel,hpos]
    abel

theorem Follows.switchIdle (hf : Follows c s p) {q : ReaderPos N} (hmoved : Moved s.switch w h q)
    (hitems : q.items = (s.switch.reader h).items) (hqueue : w.combineQueue = s.switch.combineQueue)
    (hfinished : w.finishedHosts = s.switch.finishedHosts)
    (hrun : ¬p.allMarked → SwitchRunning w) : Follows c { s with switch := w } p := by
  have heq : items { s with switch := w } = items s := by
    have := items_reader (s := s) hmoved (A := 0) (B := 0) (by simp [hitems])
    simpa using this
  refine hf.switchSide hmoved rfl ?_ ?_ id hf.hosts ?_ ?_ ?_ hrun
  · rw [heq]
    exact hf.stocked
  · rw [heq]
    exact fun _ _ hx _ => hx
  · intro g i hi
    rw [← hf.slots g i hi,← hqueue]
  · rw [hqueue]
    exact hf.foreign
  · rw [hfinished]
    exact hf.finished

theorem Follows.switchToken (hf : Follows c s p) {g : Fin N} {q : ReaderPos N}
    (hmoved : Moved s.switch s'.switch g q) {i : ℕ} {σ : Stage (Fin N) U64} (hi : i < c.num h)
    (hhost : s'.host = s.host)
    (hitems : items s' + Pi.single h ((p.stage h i).items c h i) =
      items s + Pi.single h (σ.items c h i))
    (hflags : σ.admitted = (p.stage h i).admitted ∧ σ.attentionDone = (p.stage h i).attentionDone ∧
      σ.dispatchAcked = (p.stage h i).dispatchAcked ∧ σ.pullInflight = (p.stage h i).pullInflight ∧
      σ.isDone = (p.stage h i).isDone)
    (hslots : ∀ g j, j < c.num g → s'.switch.combineQueue (c.key g j) =
      if ((p.setStage h i σ).stage g j).live then some (c.slot g j (p.waiting g j)) else none)
    (hforeign : ∀ k, (s'.switch.combineQueue k).isSome = true → ∃ h i, i < c.num h ∧ k = c.key h i)
    (hfinished : s'.switch.finishedHosts = s.switch.finishedHosts)
    (hrun : ¬p.allMarked → SwitchRunning s'.switch) : Follows c s' (p.setStage h i σ) := by
  refine hf.switchSide hmoved hhost (stocked_setStage hf.stocked hi hitems) ?_ id ?_ hslots hforeign
    (by rw [hfinished]; exact hf.finished) hrun
  · intro k x hx ht
    rcases mem_of_exchange hitems hx with hx | ⟨rfl,hx⟩
    · exact hx
    · simp [Stage.items_tag c hi σ x hx] at ht
  · intro k
    by_cases hk : k = h
    · subst hk
      exact (hf.hosts k).setStage hflags
    · exact (hf.hosts k).congr (fun j => by simp [hk]) rfl rfl rfl

theorem Follows.slots_update (hf : Follows c s p) (p' : Progress (Fin N) U64) {o : Fin N} {i : ℕ}
    {q : Option QueueSlot}
    (hi : i < c.num o)
    (hq : q = if (p'.stage o i).live then some (c.slot o i (p'.waiting o i)) else none)
    (hoff : ∀ g j, ¬(g = o ∧ j = i) →
      (p'.stage g j).live = (p.stage g j).live ∧ p'.waiting g j = p.waiting g j) :
    ∀ g j, j < c.num g → Function.update s.switch.combineQueue (c.key o i) q (c.key g j) =
      if (p'.stage g j).live then some (c.slot g j (p'.waiting g j)) else none := by
  intro g j hj
  by_cases hgj : g = o ∧ j = i
  · obtain ⟨rfl,rfl⟩ := hgj
    rw [Function.update_self,hq]
  · have hne : c.key g j ≠ c.key o i := fun heq => hgj (key_injective c hj hi heq)
    obtain ⟨hlive,hwait⟩ := hoff g j hgj
    rw [Function.update_of_ne hne,hf.slots g j hj,hlive,hwait]

theorem Follows.foreign_update (hf : Follows c s p) {o : Fin N} {i : ℕ} {q : Option QueueSlot}
    (hi : i < c.num o) : ∀ k, (Function.update s.switch.combineQueue (c.key o i) q k).isSome = true →
      ∃ h i, i < c.num h ∧ k = c.key h i := by
  intro k hk
  by_cases hkey : k = c.key o i
  · exact ⟨o,i,hi,hkey⟩
  · rw [Function.update_of_ne hkey] at hk
    exact hf.foreign k hk

theorem waiting_setStage (p : Progress (Fin N) U64) (h g : Fin N) (i j : ℕ)
    (σ : Stage (Fin N) U64) : (p.setStage h i σ).waiting g j = p.waiting g j := rfl

/-- The jobs of a token are pending only while the switch holds its slot. -/
theorem Orderly.live_of_pending (hp : Orderly c.plan p) {o e : Fin N} {i : ℕ}
    (hpend : (p.job o i e).pending = true) : (p.stage o i).live = true := by
  have hearly : (p.stage o i).early = false := by
    by_contra hne
    rw [hp.early o i e (by simpa using hne)] at hpend
    cases hpend
  have hlate : (p.stage o i).late = false := by
    by_contra hne
    rw [hp.late o i e (by simpa using hne)] at hpend
    cases hpend
  simp [Stage.live,hearly,hlate]

theorem Orderly.waiting_subset (hp : Orderly c.plan p) {o : Fin N} {i : ℕ}
    (hearly : (p.stage o i).early = false) : p.waiting o i ⊆ c.experts o i := by
  intro e he
  rw [mem_waiting] at he
  apply (hp.selected o i e hearly).mp
  intro habs
  simp [habs,Job.pending] at he

theorem mem_items_of_reader {x : Item N} (hx : x ∈ (s.switch.reader h).items) : x ∈ items s h := by
  simp only [items,Multiset.mem_add]
  exact Or.inl (Or.inr hx)

section handlers

variable {m : Msg} {ts : U64}

theorem result_accepted (hf : Follows c s p) (hp : Orderly c.plan p) {o : Fin N} {i : ℕ}
    {stamp : U64} (hj : p.job o i h = .wire stamp) :
    handleExpertResult s.switch.combineQueue (c.result o i h stamp) =
      .ok (Function.update s.switch.combineQueue (c.key o i)
        (some (c.slot o i ((p.waiting o i).erase h)))) := by
  have hi : i < c.num o := hp.lt_num_of_job (e := h) (by simp [hj])
  have hpend : (p.job o i h).pending = true := by simp [hj,Job.pending]
  have hlive := hp.live_of_pending hpend
  have hslot := hf.slots o i hi
  rw [hlive,if_pos rfl] at hslot
  have hearly : (p.stage o i).early = false := by
    simp only [Stage.live,Bool.and_eq_true,Bool.not_eq_true'] at hlive
    exact hlive.1
  exact handleExpertResult_pending c o i (by simpa using hpend)
    (hp.waiting_subset hearly) stamp hslot

theorem reader_result (hf : Follows c s p) (hp : Orderly c.plan p)
    (hk : s.switch.reader h = .got m) (hkind : m.header.kind = some .expertResult)
    {queue : CombineQueue} (hq : handleExpertResult s.switch.combineQueue m = .ok queue)
    (hmoved : Moved s.switch { s.switch.setReader h .top with combineQueue := queue } h .top)
    (hev : ev.filterMap Event.sign = []) :
    Simulated c p { s with switch := { s.switch.setReader h .top with combineQueue := queue } }
      ev := by
  have hx : Item.wire m ∈ items s h := mem_items_of_reader (by simp [ReaderPos.items,hk])
  have hne := hf.notMarked hp hx (by simp)
  obtain ⟨o,i,stamp,hj,rfl⟩ : ∃ o i stamp, p.job o i h = .wire stamp ∧ m = c.result o i h stamp := by
    rcases hf.of_wire hx with ⟨i,ts,-,rfl⟩ | ⟨i,ts,-,rfl⟩ | hres | ⟨ts,-,rfl⟩
    · cases hkind
    · cases hkind
    · exact hres
    · cases hkind
  have hi : i < c.num o := hp.lt_num_of_job (e := h) (by simp [hj])
  have hitems := items_reader hmoved (A := {.wire (c.result o i h stamp)}) (B := 0)
    (by simp [hk,ReaderPos.items])
  rw [result_accepted hf hp hj] at hq
  obtain rfl := Except.ok.inj hq
  refine Simulated.one (.job o i h [] .accepted (by rw [hj]; exact .accept stamp)) hev
    (hf.switchSide hmoved rfl ?_ ?_ ?_ ?_ ?_ ?_ ?_ ?_)
  · refine stocked_setJob hf.stocked hi ?_
    rw [hj]
    exact hitems
  · intro g x hx _
    simpa using mem_of_exchange hitems hx
  · exact fun hall => absurd hall hne
  · intro g
    exact (hf.hosts g).congr (fun _ => rfl) rfl rfl rfl
  · have hlive := hp.live_of_pending (show (p.job o i h).pending = true by simp [hj,Job.pending])
    refine hf.slots_update _ hi ?_ ?_
    · have herase : (p.setJob o i h .accepted).waiting o i = (p.waiting o i).erase h := by
        ext e
        rw [mem_waiting,Finset.mem_erase,mem_waiting,Progress.setJob_job]
        by_cases he : e = h
        · simp [he,Job.pending]
        · simp [he]
      rw [Progress.setJob_stage,hlive,if_pos rfl,herase]
    · intro g j hgj
      refine ⟨rfl,?_⟩
      ext e
      have hgj' : ¬(g = o ∧ j = i ∧ e = h) := by
        rintro ⟨rfl,rfl,-⟩
        exact hgj ⟨rfl,rfl⟩
      simp [hgj']
  · exact hf.foreign_update hi
  · simpa using hf.finished
  · intro _
    exact (hf.switchRunning hne).moved hmoved rfl rfl rfl rfl rfl rfl

theorem Follows.live_of_asked (hf : Follows c s p) (hp : Orderly c.plan p) {i : ℕ}
    (hst : p.stage h i = .asked ts) :
    s.switch.combineQueue (c.key h i) = some (c.slot h i (p.waiting h i)) := by
  rw [hf.slots h i (hp.lt_num (by simp [hst])),hst]
  rfl

theorem combineResult_of_pull (c : Config N) (h : Fin N) (i : ℕ) (ts ts' : U64) :
    combineResultMsg (c.pull h i ts).header (c.slot h i ∅) ts' = c.combined h i ts' := rfl

theorem notReady_of_pull (c : Config N) (h : Fin N) (i : ℕ) (ts ts' : U64) :
    notReadyMsg (c.pull h i ts).header ts' = c.notReady h i ts' := rfl

theorem Follows.of_got_pull (hf : Follows c s p) (hk : s.switch.reader h = .got m)
    (hkind : m.header.kind = some .combinePullReq) :
    ∃ i stamp, p.stage h i = .asked stamp ∧ m = c.pull h i stamp := by
  have hx : Item.wire m ∈ items s h := mem_items_of_reader (by simp [ReaderPos.items,hk])
  rcases hf.of_wire hx with ⟨i,ts,-,rfl⟩ | hpull | ⟨o,i,ts,-,rfl⟩ | ⟨ts,-,rfl⟩
  · cases hkind
  · exact hpull
  · cases hkind
  · cases hkind

theorem Follows.of_pull_slot (hf : Follows c s p) (hp : Orderly c.plan p)
    (hk : s.switch.reader h = .got m) (hkind : m.header.kind = some .combinePullReq)
    {slot : QueueSlot} (hslot : s.switch.combineQueue (makeKey m.header) = some slot) :
    ∃ i stamp, p.stage h i = .asked stamp ∧ m = c.pull h i stamp ∧ i < c.num h ∧ ¬p.allMarked ∧
      slot = c.slot h i (p.waiting h i) := by
  obtain ⟨i,stamp,hst,rfl⟩ := hf.of_got_pull hk hkind
  have hi : i < c.num h := hp.lt_num (by simp [hst])
  have hmem : Item.wire (c.pull h i stamp) ∈ items s h :=
    mem_items_of_reader (by simp [ReaderPos.items,hk])
  have hne := hf.notMarked hp hmem (by simp)
  rw [pull_key] at hslot
  exact ⟨i,stamp,hst,rfl,hi,hne,(Option.some.inj ((hf.live_of_asked hp hst).symm.trans hslot)).symm⟩

theorem reader_pullReady (hf : Follows c s p) (hp : Orderly c.plan p)
    (hk : s.switch.reader h = .got m) (hkind : m.header.kind = some .combinePullReq)
    {slot : QueueSlot} (hslot : s.switch.combineQueue (makeKey m.header) = some slot)
    (hready : slot.ready = true) (hw : w = { s.switch.setReader h
      (.replying (combineResultMsg m.header slot ts)) with
        combineQueue := Function.update s.switch.combineQueue (makeKey m.header) none })
    (hreg : Registered w) (hev : ev.filterMap Event.sign = []) :
    Simulated c p { s with switch := w } ev := by
  obtain ⟨i,stamp,hst,rfl,hi,hne,rfl⟩ := hf.of_pull_slot hp hk hkind hslot
  rw [pull_key] at hw
  have hempty : p.waiting h i = ∅ := of_decide_eq_true hready
  rw [hempty,combineResult_of_pull] at hw
  have hmoved : Moved s.switch w h (.replying (c.combined h i ts)) :=
    ⟨by simp [hw],hreg,by simp [LookupsExact],by simp⟩
  refine Simulated.one (.answer h i stamp ts hst ?_) hev
    (hf.switchToken hmoved hi rfl ?_ ?_ ?_ ?_ ?_ ?_)
  · intro e
    by_contra hpend
    have : e ∈ p.waiting h i := by simpa using hpend
    simp [hempty] at this
  · rw [hst]
    exact items_reader hmoved (by simp only [hk,ReaderPos.items,Stage.items]; abel)
  · simp [hst,Stage.admitted,Stage.attentionDone,Stage.dispatchAcked,Stage.pullInflight,
      Stage.isDone]
  · simp only [hw]
    refine hf.slots_update (p.setStage h i (.answering ts)) hi ?_ ?_
    · simp [Stage.live,Stage.late]
    · intro g j hgj
      simp [hgj,waiting_setStage]
  · simp only [hw]
    exact hf.foreign_update hi
  · rw [hw]
    rfl
  · intro _
    exact (hf.switchRunning hne).moved hmoved rfl (by rw [hw]; rfl) (by rw [hw]; rfl)
      (by rw [hw]; rfl) (by rw [hw]; rfl) (by rw [hw]; rfl)

theorem reader_pullNotReady (hf : Follows c s p) (hp : Orderly c.plan p)
    (hk : s.switch.reader h = .got m) (hkind : m.header.kind = some .combinePullReq)
    {slot : QueueSlot} (hslot : s.switch.combineQueue (makeKey m.header) = some slot)
    (hready : slot.ready = false)
    (hreg : Registered (s.switch.setReader h (.replying (notReadyMsg m.header ts)))) :
    Simulated c p { s with switch := s.switch.setReader h (.replying (notReadyMsg m.header ts)) }
      [] := by
  obtain ⟨i,stamp,hst,rfl,hi,hne,rfl⟩ := hf.of_pull_slot hp hk hkind hslot
  have hnonempty : p.waiting h i ≠ ∅ := of_decide_eq_false hready
  rw [notReady_of_pull] at hreg ⊢
  have hmoved : Moved s.switch (s.switch.setReader h (.replying (c.notReady h i ts))) h
    (.replying (c.notReady h i ts)) := ⟨by simp,hreg,by simp [LookupsExact],by simp⟩
  obtain ⟨e,he⟩ := Finset.nonempty_iff_ne_empty.mpr hnonempty
  refine Simulated.one (.refuse h i stamp ts hst ⟨e,mem_waiting.mp he⟩) rfl
    (hf.switchToken hmoved hi rfl ?_ ?_ ?_ hf.foreign rfl ?_)
  · rw [hst]
    exact items_reader hmoved (by simp only [hk,ReaderPos.items,Stage.items]; abel)
  · simp [hst,Stage.admitted,Stage.attentionDone,Stage.dispatchAcked,Stage.pullInflight,
      Stage.isDone]
  · intro g j hj
    rw [setReader_combineQueue,hf.slots g j hj]
    by_cases hgj : g = h ∧ j = i
    · obtain ⟨rfl,rfl⟩ := hgj
      simp [hst,Stage.live,Stage.early,Stage.late]
    · simp [hgj]
  · intro _
    exact (hf.switchRunning hne).moved hmoved rfl rfl rfl rfl rfl rfl

theorem Follows.of_got_finish (hf : Follows c s p) (hk : s.switch.reader h = .got m)
    (hkind : m.header.kind = some .finish) : ∃ stamp, p.fin h = .wire stamp ∧ m = c.finish h stamp := by
  have hx : Item.wire m ∈ items s h := mem_items_of_reader (by simp [ReaderPos.items,hk])
  rcases hf.of_wire hx with ⟨i,ts,-,rfl⟩ | ⟨i,ts,-,rfl⟩ | ⟨o,i,ts,-,rfl⟩ | hfin
  · cases hkind
  · cases hkind
  · cases hkind
  · exact hfin

theorem reader_finish (hf : Follows c s p) (hp : Orderly c.plan p)
    (hk : s.switch.reader h = .got m) (hkind : m.header.kind = some .finish) {q : ReaderPos N}
    (hmoved : Moved s.switch w h q) (hq : q.items = 0)
    (hqueue : w.combineQueue = s.switch.combineQueue)
    (hfinished : w.finishedHosts = insert h s.switch.finishedHosts)
    (hrun : ¬(p.setFin h .marked).allMarked → SwitchRunning w) :
    Follows c { s with switch := w } (p.setFin h .marked) := by
  obtain ⟨stamp,hfin,rfl⟩ := hf.of_got_finish hk hkind
  have hmem : Item.wire (c.finish h stamp) ∈ items s h :=
    mem_items_of_reader (by simp [ReaderPos.items,hk])
  have hne := hf.notMarked hp hmem (by simp)
  have hitems := items_reader hmoved (A := {.wire (c.finish h stamp)}) (B := 0)
    (by rw [hq,hk]; simp [ReaderPos.items])
  refine hf.switchSide hmoved rfl ?_ ?_ (fun hall => absurd hall hne) ?_ ?_ ?_ ?_ hrun
  · refine stocked_setFin hf.stocked ?_
    rw [hfin]
    exact hitems
  · intro g x hx _
    simpa using mem_of_exchange hitems hx
  · intro g
    by_cases hg : g = h
    · subst hg
      exact (hf.hosts g).setFin (by simp [hfin])
    · exact (hf.hosts g).congr (fun _ => rfl) rfl rfl (by simp [hg])
  · rw [hqueue]
    exact hf.slots
  · rw [hqueue]
    exact hf.foreign
  · intro g
    rw [hfinished,Finset.mem_insert,hf.finished]
    by_cases hg : g = h <;> simp [hg]

theorem reader_create (hf : Follows c s p) (hp : Orderly c.plan p) {targets : List (Fin N)}
    (hk : s.switch.reader h = .looking m [] targets)
    (hreg : Registered (createSlot s.switch h m targets).1) :
    Simulated c p { s with switch := (createSlot s.switch h m targets).1 }
      (createSlot s.switch h m targets).2 := by
  have hmem : Item.wire m ∈ items s h := mem_items_of_reader (by simp [ReaderPos.items,hk])
  have hne := hf.notMarked hp hmem (by simp)
  obtain ⟨hkind,hids⟩ := hf.lookups h m [] targets hk
  obtain ⟨i,stamp,hst,rfl⟩ : ∃ i stamp, p.stage h i = .dispatched stamp ∧ m = c.dispatch h i stamp := by
    rcases hf.of_wire hmem with hdisp | ⟨i,ts,-,rfl⟩ | ⟨o,i,ts,-,rfl⟩ | ⟨ts,-,rfl⟩
    · exact hdisp
    · cases hkind
    · cases hkind
    · cases hkind
  have hi : i < c.num h := hp.lt_num (by simp [hst])
  have htargets : targets = listOf (c.experts h i) := by
    apply List.map_injective_iff.mpr Fin.val_injective
    rw [List.append_nil] at hids
    exact hids.trans (decodeExpertIds_token c h i)
  have hslot : newSlot (c.dispatch h i stamp).header (expectedBitmap targets) =
      c.slot h i (c.experts h i) := by
    rw [htargets]
    exact slot_full c h i
  have hnone : s.switch.combineQueue (c.key h i) = none := by
    rw [hf.slots h i hi,hst]
    rfl
  have habs : ∀ e, p.job h i e = .absent := fun e => hp.early h i e (by simp [hst,Stage.early])
  have hmoved : Moved s.switch (createSlot s.switch h (c.dispatch h i stamp) targets).1 h
      (.dispatching (c.dispatch h i stamp) targets) :=
    ⟨by simp [createSlot],hreg,by simp [LookupsExact],by simp⟩
  have hitems := items_reader hmoved (A := {.wire (c.dispatch h i stamp)})
    (B := {.fan (c.dispatch h i stamp) targets}) (by simp only [hk,ReaderPos.items]; abel)
  have hmemt : ∀ e, e ∈ targets ↔ e ∈ c.experts h i := fun e => by rw [htargets,mem_listOf]
  refine Simulated.one (.create h i stamp targets hst (by rw [htargets]; exact nodup_listOf _) hmemt)
    ?_ (hf.switchSide hmoved rfl ?_ ?_ (fun hall => absurd hall hne) ?_ ?_ ?_ ?_ ?_)
  · simp [createSlot,dispatch_key,hnone,Event.sign]
  · refine stocked_setTargets (stocked_setStage hf.stocked hi ?_) habs
    rw [hst]
    exact hitems
  · intro g x hx ht
    rcases mem_of_exchange hitems hx with hx | ⟨-,hx⟩
    · exact hx
    · rw [Multiset.mem_singleton.mp hx] at ht
      simp [Item.tag,noteTag,noteUp_dispatch c hi,Note.tag] at ht
  · intro g
    refine HostMatches.congr (p := p.setStage h i (.fanning stamp targets)) ?_ (fun _ => rfl) rfl rfl rfl
    by_cases hg : g = h
    · subst hg
      refine (hf.hosts g).setStage ?_
      simp [hst,Stage.admitted,Stage.attentionDone,Stage.dispatchAcked,Stage.pullInflight,
        Stage.isDone]
    · exact (hf.hosts g).congr (fun j => by simp [hg]) rfl rfl rfl
  · simp only [createSlot,dispatch_key,hslot]
    refine hf.slots_update _ hi ?_ ?_
    · have hwait : ((p.setStage h i (.fanning stamp targets)).setTargets h i targets).waiting h i =
          c.experts h i := by
        ext e
        rw [mem_waiting,Progress.setTargets_job,← hmemt]
        by_cases he : e ∈ targets
        · simp [he,Job.pending]
        · simp [he,habs,Job.pending]
      rw [hwait]
      simp [Stage.live,Stage.early,Stage.late]
    · intro g j hgj
      refine ⟨by simp [hgj],?_⟩
      ext e
      have hgj' : ¬(g = h ∧ j = i ∧ e ∈ targets) := by
        rintro ⟨rfl,rfl,-⟩
        exact hgj ⟨rfl,rfl⟩
      simp [hgj']
  · simp only [createSlot,dispatch_key]
    exact hf.foreign_update hi
  · exact hf.finished
  · intro _
    exact (hf.switchRunning hne).moved hmoved rfl rfl rfl rfl rfl rfl

end handlers

theorem Follows.conn_true (hf : Follows c s p) (hne : ¬p.allMarked)
    (hstarted : s.switch.reader h ≠ .notStarted) (g : Fin N) : s.switch.conn g = true := by
  rw [(hf.switchRunning hne).conn]
  exact hf.registered.reader h hstarted g

/-- A reader that has left its loop or shuts down does so after the last FINISH. -/
theorem Follows.allMarked_of_not_serving (hf : Follows c s p)
    (hq : (s.switch.reader h).serving = false) : p.allMarked := by
  by_contra hne
  simp [(hf.switchRunning hne).readers h] at hq

theorem Follows.of_sendNull (hf : Follows c s p) (hp : Orderly c.plan p) {g : Fin N}
    (htarget : sendTarget h (s.switch.reader h) = some g) (hconn : s.switch.conn g = false) :
    p.allMarked ∧ ∃ rid rest, s.switch.reader h = .broadcasting rid (g::rest) := by
  have hall : p.allMarked := by
    by_contra hne
    have := hf.conn_true hne (h := h) (by intro hn; simp [hn,sendTarget] at htarget) g
    simp [this] at hconn
  refine ⟨hall,?_⟩
  cases hk : s.switch.reader h with
  | dispatching m rest =>
    have hx : Item.fan m rest ∈ items s h := mem_items_of_reader (by simp [ReaderPos.items,hk])
    exact absurd hall (hf.notMarked hp hx (by simp))
  | replying m =>
    have hx : Item.reply m ∈ items s h := mem_items_of_reader (by simp [ReaderPos.items,hk])
    exact absurd hall (hf.notMarked hp hx (by simp))
  | broadcasting rid rest =>
    cases rest with
    | nil => simp [hk,sendTarget] at htarget
    | cons g' rest =>
      simp only [hk,sendTarget,Option.some.injEq] at htarget
      subst htarget
      exact ⟨rid,rest,rfl⟩
  | _ => simp [hk,sendTarget] at htarget

theorem reader_shutdown (hf : Follows c s p) {q q' : ReaderPos N} (hk : s.switch.reader h = q)
    (hq : q.serving = false) (hmoved : Moved s.switch w h q') (hitems : q'.items = q.items)
    (hqueue : w.combineQueue = s.switch.combineQueue)
    (hfinished : w.finishedHosts = s.switch.finishedHosts) :
    Simulated c p { s with switch := w } [] := by
  subst hk
  have hall := hf.allMarked_of_not_serving hq
  exact .still (hf.switchIdle hmoved hitems hqueue hfinished fun hne => absurd hall hne)

theorem reader_lookup (hf : Follows c s p) {m : Msg} {id : ℕ} {ids : List ℕ}
    {targets : List (Fin N)} {g : Fin N} (hk : s.switch.reader h = .looking m (id::ids) targets)
    (hfind : findHost s.switch id = some g)
    (hreg : Registered (s.switch.setReader h (.looking m ids (targets ++ [g])))) :
    Simulated c p
      { s with switch := s.switch.setReader h (.looking m ids (targets ++ [g])) } [] := by
  have hmoved : Moved s.switch (s.switch.setReader h (.looking m ids (targets ++ [g]))) h
      (.looking m ids (targets ++ [g])) := by
    refine ⟨by simp,hreg,?_,by simp⟩
    rintro _ _ _ ⟨rfl,rfl,rfl⟩
    obtain ⟨hkind,hids⟩ := hf.lookups h m (id::ids) targets hk
    refine ⟨hkind,?_⟩
    have hg : g.val = id := by
      unfold findHost at hfind
      split_ifs at hfind
      rw [← Option.some.inj hfind]
    rw [← hids,List.map_append,List.append_assoc]
    simp [hg]
  exact .still (hf.switchIdle hmoved (by simp [hk,ReaderPos.items]) rfl rfl
    fun hne => (hf.switchRunning hne).moved hmoved rfl rfl rfl rfl rfl rfl)

theorem reader_finishMarked (hf : Follows c s p) (hp : Orderly c.plan p) {m : Msg}
    (hk : s.switch.reader h = .got m) (hkind : m.header.kind = some .finish)
    (hcard : (insert h s.switch.finishedHosts).card < N)
    (hreg : Registered { s.switch.setReader h .top with
      finishedHosts := insert h s.switch.finishedHosts }) :
    Simulated c p { s with switch := { s.switch.setReader h .top with
      finishedHosts := insert h s.switch.finishedHosts } } [] := by
  obtain ⟨stamp,hfin,-⟩ := hf.of_got_finish hk hkind
  have hmoved : Moved s.switch { s.switch.setReader h .top with
      finishedHosts := insert h s.switch.finishedHosts } h .top :=
    ⟨by simp,hreg,by simp [LookupsExact],by simp⟩
  have hwire : Item.wire m ∈ items s h := mem_items_of_reader (by simp [ReaderPos.items,hk])
  have hne := hf.notMarked hp hwire (by simp)
  refine Simulated.one (.mark h stamp hfin ?_) rfl (reader_finish hf hp hk hkind hmoved rfl rfl
    rfl fun _ => (hf.switchRunning hne).moved hmoved rfl rfl rfl rfl rfl rfl)
  by_contra hall
  push Not at hall
  have huniv : insert h s.switch.finishedHosts = Finset.univ := by
    ext g
    by_cases hg : g = h
    · simp [hg]
    · simp [(hf.finished g).mpr (hall g hg)]
  rw [huniv,Finset.card_univ,Fintype.card_fin] at hcard
  exact lt_irrefl _ hcard

theorem reader_finishLast (hf : Follows c s p) (hp : Orderly c.plan p) {m : Msg} {rid : U64}
    (hk : s.switch.reader h = .got m) (hkind : m.header.kind = some .finish)
    (hcard : N ≤ (insert h s.switch.finishedHosts).card)
    (hreg : Registered { s.switch.setReader h (.broadcasting rid (snapshotHosts s.switch)) with
      finishedHosts := insert h s.switch.finishedHosts }) :
    Simulated c p { s with switch := { s.switch.setReader h
      (.broadcasting rid (snapshotHosts s.switch)) with
        finishedHosts := insert h s.switch.finishedHosts } } [.broadcast] := by
  obtain ⟨stamp,hfin,-⟩ := hf.of_got_finish hk hkind
  have huniv : insert h s.switch.finishedHosts = Finset.univ := by
    apply Finset.eq_univ_of_card
    rw [Fintype.card_fin]
    exact le_antisymm (by simpa using Finset.card_le_univ (insert h s.switch.finishedHosts)) hcard
  have hothers : ∀ g, g ≠ h → p.fin g = .marked := by
    intro g hg
    have hmem : g ∈ insert h s.switch.finishedHosts := by simp [huniv]
    exact (hf.finished g).mp ((Finset.mem_insert.mp hmem).resolve_left hg)
  have hmoved : Moved s.switch { s.switch.setReader h (.broadcasting rid (snapshotHosts s.switch)) with
      finishedHosts := insert h s.switch.finishedHosts } h
      (.broadcasting rid (snapshotHosts s.switch)) :=
    ⟨by simp,hreg,by simp [LookupsExact],by simp⟩
  refine Simulated.one (.markLast h stamp hfin hothers) rfl (reader_finish hf hp hk hkind hmoved
    rfl rfl rfl fun hne => absurd ?_ hne)
  intro g
  by_cases hg : g = h
  · simp [hg]
  · simp [hg,hothers g hg]

/-- No message that a reader has got is rejected or ignored. -/
theorem Follows.got_sound (hf : Follows c s p) (hp : Orderly c.plan p)
    (hk : s.switch.reader h = .got m) :
    (m.header.kind = some .dispatchToken ∧ m.payload.size = m.header.payloadLen.toNat) ∨
    m.header.kind = some .combinePullReq ∨
    (m.header.kind = some .expertResult ∧
      ∃ queue, handleExpertResult s.switch.combineQueue m = .ok queue) ∨
    m.header.kind = some .finish := by
  have hwire : Item.wire m ∈ items s h := mem_items_of_reader (by simp [ReaderPos.items,hk])
  obtain ⟨i,stamp,-,rfl⟩ | ⟨i,stamp,-,rfl⟩ | ⟨o,i,stamp,hj,rfl⟩ | ⟨stamp,-,rfl⟩ := hf.of_wire hwire
  · exact .inl ⟨rfl,(dispatch_wellFormed c h i stamp).payload⟩
  · exact .inr (.inl rfl)
  · exact .inr (.inr (.inl ⟨rfl,_,result_accepted hf hp hj⟩))
  · exact .inr (.inr (.inr rfl))

theorem reader_leave (hf : Follows c s p) (hk : s.switch.reader h = .top)
    (hstop : s.switch.running = false ∨ s.switch.conn h = false)
    (hreg : Registered (s.switch.setReader h (.exited false))) :
    Simulated c p { s with switch := s.switch.setReader h (.exited false) } [] := by
  have hmoved : Moved s.switch (s.switch.setReader h (.exited false)) h (.exited false) :=
    ⟨by simp,hreg,by simp [LookupsExact],by simp⟩
  refine .still (hf.switchIdle hmoved (by simp [hk,ReaderPos.items]) rfl rfl fun hne => ?_)
  rcases hstop with hr | hc
  · simp [(hf.switchRunning hne).running] at hr
  · simp [hf.conn_true hne (h := h) (by simp [hk]) h] at hc

theorem reader_dispatch (hf : Follows c s p) (hk : s.switch.reader h = .got m)
    (hkind : m.header.kind = some .dispatchToken)
    (hreg : Registered (s.switch.setReader h
      (.looking m (decodeExpertIds m.header.expertBitmap N) []))) :
    Simulated c p { s with
      switch := s.switch.setReader h
        (.looking m (decodeExpertIds m.header.expertBitmap N) []) } [] := by
  have hmoved : Moved s.switch (s.switch.setReader h
      (.looking m (decodeExpertIds m.header.expertBitmap N) [])) h
      (.looking m (decodeExpertIds m.header.expertBitmap N) []) := by
    refine ⟨by simp,hreg,?_,by simp⟩
    rintro _ _ _ ⟨rfl,rfl,rfl⟩
    exact ⟨hkind,by simp⟩
  exact .still (hf.switchIdle hmoved (by simp [hk,ReaderPos.items]) rfl rfl
    fun hne => (hf.switchRunning hne).moved hmoved rfl rfl rfl rfl rfl rfl)

theorem readerGo_simulated (hf : Follows c s p) (hp : Orderly c.plan p) {ts : U64}
    (hm : ReaderMove s.switch h (.go ts) w ev) : Simulated c p { s with switch := w } ev := by
  have hreg : Registered w := hf.registered.step (.reader h (.go ts) w ev hm)
  have hrunning : ∀ {q : ReaderPos N}, Moved s.switch w h q → q.serving = true →
      w.running = s.switch.running → w.conn = s.switch.conn → w.opened = s.switch.opened →
      ¬p.allMarked → SwitchRunning w := fun hmoved hq hr hc ho hne =>
    (hf.switchRunning hne).moved hmoved hq hr hc ho hm.hosts hm.main
  cases hm with
  | enterRead _ _ hk _ _ =>
    have hmoved : Moved s.switch (s.switch.setReader h .reading) h .reading :=
      ⟨by simp,hreg,by simp [LookupsExact],by simp⟩
    exact .still (hf.switchIdle hmoved (by simp [hk,ReaderPos.items]) rfl rfl
      (hrunning hmoved rfl rfl rfl rfl))
  | leave _ _ hk hstop => exact reader_leave hf hk hstop hreg
  | dispatchMismatch _ m _ hk hkind hsize =>
    obtain ⟨-,hok⟩ | hgot | ⟨hgot,-⟩ | hgot := hf.got_sound hp hk
    · exact absurd hok hsize
    all_goals simp [hgot] at hkind
  | dispatch _ m _ hk hkind _ => exact reader_dispatch hf hk hkind hreg
  | resultRejected _ m f _ hk hkind hrej =>
    obtain ⟨hgot,-⟩ | hgot | ⟨-,queue,hok⟩ | hgot := hf.got_sound hp hk
    · simp [hgot] at hkind
    · simp [hgot] at hkind
    · simp [hok] at hrej
    · simp [hgot] at hkind
  | result _ m queue _ hk hkind hq =>
    exact reader_result hf hp hk hkind hq ⟨by simp,hreg,by simp [LookupsExact],by simp⟩ rfl
  | pullReady _ m slot _ hk hkind hslot hready =>
    exact reader_pullReady hf hp hk hkind hslot hready rfl hreg rfl
  | pullNotReady _ m slot _ hk hkind hslot hready =>
    exact reader_pullNotReady hf hp hk hkind hslot hready hreg
  | pullMissing _ m _ hk hkind hnone =>
    obtain ⟨i,stamp,hst,rfl⟩ := hf.of_got_pull hk hkind
    rw [pull_key,hf.live_of_asked hp hst] at hnone
    cases hnone
  | ackSeen _ m _ hk hkind =>
    obtain ⟨hgot,-⟩ | hgot | ⟨hgot,-⟩ | hgot := hf.got_sound hp hk <;> simp [hgot] at hkind
  | finishMarked _ m _ hk hkind hcard => exact reader_finishMarked hf hp hk hkind hcard hreg
  | finishLast _ m _ hk hkind hcard => exact reader_finishLast hf hp hk hkind hcard hreg
  | ignored _ m _ hk hkinds =>
    obtain ⟨hgot,-⟩ | hgot | ⟨hgot,-⟩ | hgot := hf.got_sound hp hk <;>
      exact absurd (hkinds _ hgot) (by simp)
  | lookupMiss _ m id ids targets _ hk hmiss =>
    obtain ⟨-,hids⟩ := hf.lookups h m (id::ids) targets hk
    have hmem : id ∈ decodeExpertIds m.header.expertBitmap N := by simp [← hids]
    have hlt := decodeExpertIds_lt hmem
    simp [findHost,hlt,hf.registered.reader h (by simp [hk])] at hmiss
  | lookup _ m id ids targets g _ hk hfind => exact reader_lookup hf hk hfind hreg
  | create _ m targets _ hk => exact reader_create hf hp hk hreg
  | clear _ m g rest _ hk => exact absurd hk (hf.unfailed h m g rest)
  | stopRunning _ rid _ hk =>
    have hmoved : Moved s.switch { s.switch.setReader h (.closing (snapshotHosts s.switch)) with
        running := false } h (.closing (snapshotHosts s.switch)) :=
      ⟨by simp,hreg,by simp [LookupsExact],by simp⟩
    exact reader_shutdown hf hk rfl hmoved rfl rfl rfl
  | close _ g rest _ hk _ =>
    have hmoved : Moved s.switch { s.switch.setReader h (.nulling g rest) with
        opened := Function.update s.switch.opened g false } h (.nulling g rest) :=
      ⟨by simp,hreg,by simp [LookupsExact],by simp⟩
    exact reader_shutdown hf hk rfl hmoved rfl rfl rfl
  | skipClosed _ g rest _ hk _ =>
    have hmoved : Moved s.switch (s.switch.setReader h (.closing rest)) h (.closing rest) :=
      ⟨by simp,hreg,by simp [LookupsExact],by simp⟩
    exact reader_shutdown hf hk rfl hmoved rfl rfl rfl
  | null _ g rest _ hk =>
    have hmoved : Moved s.switch { s.switch.setReader h (.closing rest) with
        conn := Function.update s.switch.conn g false } h (.closing rest) :=
      ⟨by simp,hreg,by simp [LookupsExact],by simp⟩
    exact reader_shutdown hf hk rfl hmoved rfl rfl rfl
  | endClosing _ _ hk =>
    have hmoved : Moved s.switch (s.switch.setReader h (.exited false)) h (.exited false) :=
      ⟨by simp,hreg,by simp [LookupsExact],by simp⟩
    exact reader_shutdown hf hk rfl hmoved rfl rfl rfl
  | sendNull _ g _ htarget hconn =>
    obtain ⟨hall,rid,rest,hk⟩ := hf.of_sendNull hp htarget hconn
    have hmoved : Moved s.switch (s.switch.setReader h (afterSend false (s.switch.reader h))) h
        (.broadcasting rid rest) := ⟨by simp [hk,afterSend],hreg,by simp [LookupsExact],by simp⟩
    rw [show afterSendEvents (s.switch.reader h) = [] by simp [hk,afterSendEvents]]
    exact .still (hf.switchIdle hmoved (by simp [hk,ReaderPos.items]) rfl rfl
      fun hne => absurd hall hne)
  | enterWrite _ g _ htarget _ _ =>
    have hmoved : Moved s.switch
        { s.switch with writing := Function.update s.switch.writing h (some ts) } h
        (s.switch.reader h) := by
      refine ⟨?_,hreg,hf.lookups h,hf.unfailed h⟩
      intro r
      by_cases hr : r = h <;> simp [hr]
    exact .still (hf.switchIdle hmoved rfl rfl rfl fun hne =>
      hrunning hmoved ((hf.switchRunning hne).readers h) rfl rfl rfl hne)

/-- What a system looks like after reader `h` has sent `m` to host `g`. -/
def System.sent (s : System N) (w : Switch N) (g : Fin N) (m : Msg) : System N :=
  { s with switch := w, toHost := Function.update s.toHost g (s.toHost g ++ [m]) }

theorem items_sent (s : System N) (w : Switch N) (g : Fin N) (m : Msg) :
    items (s.sent w g m) = items { s with switch := w } + Pi.single g {.down m} := by
  funext k
  by_cases hk : k = g
  · subst hk
    simp only [items,System.sent,Function.update_self,bag_append,bag_cons,bag_nil,Pi.add_apply,
      Pi.single_eq_same]
    abel
  · simp [items,System.sent,hk]

theorem items_reply {q : ReaderPos N} (hmoved : Moved s.switch w h q) (hq : q.items = 0)
    {m : Msg} : items (s.sent w h m) + Pi.single h (s.switch.reader h).items =
      items s + Pi.single h {.down m} := by
  have hgive := items_reader hmoved (A := (s.switch.reader h).items) (B := 0) (by rw [hq]; abel)
  rw [items_sent,add_right_comm,hgive]
  simp

theorem expertInput_of_dispatch (c : Config N) (h : Fin N) (i : ℕ) (g : Fin N) (ts ts' : U64) :
    expertInputMsg (c.dispatch h i ts) g ts' = c.input h i g ts' := rfl

theorem ack_of_dispatch (c : Config N) (h : Fin N) (i : ℕ) (ts ts' : U64) :
    ackMsg (c.dispatch h i ts).header ts' = c.ack h i ts' := rfl

theorem filterMap_toHost {g : Fin N} {m : Msg} {n : Note (Fin N)} (hn : noteDown m = some n) :
    [Event.toHost g m].filterMap Event.sign = [.down g n] := by simp [Event.sign,hn]

section sends

variable {m : Msg} {ts : U64} {g : Fin N}

theorem sent_input (hf : Follows c s p) (hp : Orderly c.plan p) {rest : List (Fin N)}
    (hk : s.switch.reader h = .dispatching m (g::rest))
    (hmoved : Moved s.switch w h (.dispatching m rest))
    (hqueue : w.combineQueue = s.switch.combineQueue)
    (hfinished : w.finishedHosts = s.switch.finishedHosts)
    (hrun : ¬p.allMarked → SwitchRunning w) :
    Simulated c p (s.sent w g (expertInputMsg m g ts)) [.toHost g (expertInputMsg m g ts)] := by
  have hx : Item.fan m (g::rest) ∈ items s h := mem_items_of_reader (by simp [ReaderPos.items,hk])
  obtain ⟨i,stamp,hst,rfl⟩ := hf.of_fan hx
  have hi : i < c.num h := hp.lt_num (by simp [hst])
  have hne := hf.notMarked hp hx (by simp)
  have htarget : p.job h i g = .target := (hp.target h i g).mpr (by simp [hst,Stage.rest])
  have hitems := items_reader hmoved (A := {.fan (c.dispatch h i stamp) (g::rest)})
    (B := {.fan (c.dispatch h i stamp) rest}) (by simp only [hk,ReaderPos.items]; abel)
  have hitems' := items_sent s w g (c.input h i g ts)
  rw [expertInput_of_dispatch]
  refine Simulated.one (.fanOut h i stamp g rest ts hst)
    (filterMap_toHost (noteDown_input c hi ts g))
    (hf.switchSide hmoved rfl ?_ ?_ (fun hall => absurd hall hne) ?_ ?_ ?_ ?_ (fun _ => hrun hne))
  · refine stocked_setJob (I := items { s with switch := w }) (stocked_setStage hf.stocked hi ?_) hi ?_
    · rw [hst]
      exact hitems
    · rw [hitems',Progress.setStage_job,htarget]
      simp [Job.items]
  · intro k x hx ht
    have hput : items (s.sent w g (c.input h i g ts)) + Pi.single g 0 =
        items { s with switch := w } + Pi.single g {.down (c.input h i g ts)} := by
      rw [hitems',Pi.single_zero,add_zero]
    rcases mem_of_exchange hput hx with hx | ⟨-,hx⟩
    · rcases mem_of_exchange hitems hx with hx | ⟨-,hx⟩
      · exact hx
      · rw [Multiset.mem_singleton.mp hx] at ht
        simp [Item.tag,noteTag,noteUp_dispatch c hi,Note.tag] at ht
    · rw [Multiset.mem_singleton.mp hx] at ht
      simp [Item.tag,noteTag,noteDown_input c hi,Note.tag] at ht
  · intro k
    refine HostMatches.congr (p := p.setStage h i (.fanning stamp rest)) ?_ (fun _ => rfl) rfl rfl
      rfl
    by_cases hk : k = h
    · subst hk
      refine (hf.hosts k).setStage ?_
      simp [hst,Stage.admitted,Stage.attentionDone,Stage.dispatchAcked,Stage.pullInflight,
        Stage.isDone]
    · exact (hf.hosts k).congr (fun j => by simp [hk]) rfl rfl rfl
  · intro k j hj
    have hwait : ((p.setStage h i (.fanning stamp rest)).setJob h i g (.input ts)).waiting k j =
        p.waiting k j := by
      ext e
      rw [mem_waiting,mem_waiting,Progress.setJob_job]
      split_ifs with hkj
      · obtain ⟨rfl,rfl,rfl⟩ := hkj
        simp [htarget,Job.pending]
      · rfl
    rw [hwait]
    change w.combineQueue _ = _
    rw [hqueue,hf.slots k j hj,Progress.setJob_stage,Progress.setStage_stage]
    split_ifs with hlive hkj hlive' hlive' <;> simp_all [Stage.live,Stage.early,Stage.late]
  · change ∀ k, (w.combineQueue k).isSome = true → _
    rw [hqueue]
    exact hf.foreign
  · intro k
    change k ∈ w.finishedHosts ↔ _
    rw [hfinished]
    exact hf.finished k

theorem sent_reply (hf : Follows c s p) (hp : Orderly c.plan p)
    {i : ℕ} {σ : Stage (Fin N) U64} {ls : List (Sign (Fin N))} (hs : TokenStep h i (p.stage h i) ls σ)
    (hmoved : Moved s.switch w h .top) (hfrom : (s.switch.reader h).items = (p.stage h i).items c h i)
    (hto : σ.items c h i = {.down m}) (hne : ¬p.allMarked) (hlive : σ.live = (p.stage h i).live)
    (hflags : σ.admitted = (p.stage h i).admitted ∧ σ.attentionDone = (p.stage h i).attentionDone ∧
      σ.dispatchAcked = (p.stage h i).dispatchAcked ∧ σ.pullInflight = (p.stage h i).pullInflight ∧
      σ.isDone = (p.stage h i).isDone)
    (hqueue : w.combineQueue = s.switch.combineQueue)
    (hfinished : w.finishedHosts = s.switch.finishedHosts)
    (hrun : ¬p.allMarked → SwitchRunning w) (hev : ev.filterMap Event.sign = ls) :
    Simulated c p (s.sent w h m) ev := by
  have hi : i < c.num h := hp.lt_num hs.frame.2.2.2.2.1
  refine Simulated.one (.token h i ls σ hs) hev
    (hf.switchToken hmoved hi rfl ?_ hflags ?_ ?_ hfinished (fun _ => hrun hne))
  · rw [hto,← hfrom]
    exact items_reply hmoved rfl
  · intro k j hj
    change w.combineQueue _ = _
    rw [hqueue,hf.slots k j hj,Progress.setStage_stage]
    split_ifs with hlive₁ hkj hlive₂ hlive₂ <;> simp_all
  · change ∀ k, (w.combineQueue k).isSome = true → _
    rw [hqueue]
    exact hf.foreign

theorem sent_finish (hf : Follows c { s with switch := w } p) (hall : p.allMarked) (rid : U64) :
    Simulated c p (s.sent w g (broadcastFinishMsg rid g ts))
      [.toHost g (broadcastFinishMsg rid g ts)] := by
  have hput : items (s.sent w g (broadcastFinishMsg rid g ts)) + Pi.single g 0 =
      items { s with switch := w } + Pi.single g {.down (broadcastFinishMsg rid g ts)} := by
    rw [items_sent,Pi.single_zero,add_zero]
  refine Simulated.one (.stop g hall) rfl
    { hf with stocked := ?_, untagged := ?_ }
  · exact hf.stocked.untagged hput (by simp) (by simp [Item.tag,noteTag,noteDown,Note.tag,
      broadcastFinishMsg,MsgHeader.kind,MsgHeader.new])
  · intro k x hx ht
    rcases mem_of_exchange hput hx with hx | ⟨rfl,hx⟩
    · exact hf.untagged k x hx ht
    · exact ⟨hall,rid,ts,Multiset.mem_singleton.mp hx⟩

end sends

theorem readerSent_simulated (hf : Follows c s p) (hp : Orderly c.plan p) {g : Fin N} {ts : U64}
    (hwriting : s.switch.writing h = some ts) (htarget : sendTarget h (s.switch.reader h) = some g) :
    Simulated c p (s.sent (finishSend s.switch h g ts true).1 g (sendMsg ts (s.switch.reader h)))
      (finishSend s.switch h g ts true).2 := by
  have hmove := ReaderMove.finishWrite ts g true hwriting htarget
  have hreg : Registered (finishSend s.switch h g ts true).1 :=
    hf.registered.step (.reader h (.sent true) _ _ hmove)
  have hrunning : ∀ {q : ReaderPos N}, Moved s.switch (finishSend s.switch h g ts true).1 h q →
      q.serving = true → ¬p.allMarked → SwitchRunning (finishSend s.switch h g ts true).1 :=
    fun hmoved hq hne => (hf.switchRunning hne).moved hmoved hq rfl rfl rfl rfl rfl
  cases hk : s.switch.reader h with
  | dispatching m rest =>
    have hx : Item.fan m rest ∈ items s h := mem_items_of_reader (by simp [ReaderPos.items,hk])
    have hne := hf.notMarked hp hx (by simp)
    cases rest with
    | cons g' rest =>
      obtain rfl : g' = g := by simpa [hk,sendTarget] using htarget
      have hmoved : Moved s.switch (finishSend s.switch h g' ts true).1 h (.dispatching m rest) :=
        ⟨by simp [finishSend,hk,afterSend],hreg,by simp [LookupsExact],by simp⟩
      have hev : (finishSend s.switch h g' ts true).2 = [.toHost g' (expertInputMsg m g' ts)] := by
        simp [finishSend,hk,sendMsg,afterSendEvents]
      rw [hev]
      exact sent_input hf hp hk hmoved rfl rfl (hrunning hmoved rfl)
    | nil =>
      obtain rfl : h = g := by simpa [hk,sendTarget] using htarget
      obtain ⟨i,stamp,hst,rfl⟩ := hf.of_fan hx
      have hi : i < c.num h := hp.lt_num (by simp [hst])
      have hmoved : Moved s.switch (finishSend s.switch h h ts true).1 h .top :=
        ⟨by simp [finishSend,hk,afterSend],hreg,by simp [LookupsExact],by simp⟩
      refine sent_reply hf hp (i := i) (σ := .acking ts) (by rw [hst]; exact .fanEnd stamp ts) hmoved
        (by simp [hk,hst,ReaderPos.items,Stage.items]) rfl hne (by rw [hst]; rfl)
        (by simp [hst,Stage.admitted,Stage.attentionDone,Stage.dispatchAcked,Stage.pullInflight,
          Stage.isDone]) rfl rfl (hrunning hmoved rfl) ?_
      simp only [finishSend,hk,sendMsg,afterSendEvents,if_true,ack_of_dispatch,List.filterMap_append,
        filterMap_toHost (noteDown_ack c hi ts),dispatch_key]
      simp [sign_dispatched c hi]
  | replying m =>
    obtain rfl : h = g := by simpa [hk,sendTarget] using htarget
    have hx : Item.reply m ∈ items s h := mem_items_of_reader (by simp [ReaderPos.items,hk])
    have hne := hf.notMarked hp hx (by simp)
    have hmoved : Moved s.switch (finishSend s.switch h h ts true).1 h .top :=
      ⟨by simp [finishSend,hk,afterSend],hreg,by simp [LookupsExact],by simp⟩
    have hev : (finishSend s.switch h h ts true).2 = [.toHost h m] := by
      simp [finishSend,hk,sendMsg,afterSendEvents]
    rw [hev]
    rcases hf.of_reply hx with ⟨i,stamp,hst,rfl⟩ | ⟨i,stamp,hst,rfl⟩
    · have hi : i < c.num h := hp.lt_num (by simp [hst])
      exact sent_reply hf hp (i := i) (σ := .refused stamp)
        (by rw [hst]; exact .sendRefusal stamp) hmoved
        (by simp [hk,hst,ReaderPos.items,Stage.items]) rfl hne (by rw [hst]; rfl)
        (by simp [hst,Stage.admitted,Stage.attentionDone,Stage.dispatchAcked,Stage.pullInflight,
          Stage.isDone]) rfl rfl (hrunning hmoved rfl) (filterMap_toHost (noteDown_notReady c hi _))
    · have hi : i < c.num h := hp.lt_num (by simp [hst])
      exact sent_reply hf hp (i := i) (σ := .returning stamp)
        (by rw [hst]; exact .sendAnswer stamp) hmoved
        (by simp [hk,hst,ReaderPos.items,Stage.items]) rfl hne (by rw [hst]; rfl)
        (by simp [hst,Stage.admitted,Stage.attentionDone,Stage.dispatchAcked,Stage.pullInflight,
          Stage.isDone]) rfl rfl (hrunning hmoved rfl) (filterMap_toHost (noteDown_combined c hi _))
  | broadcasting rid rest =>
    cases rest with
    | nil => simp [hk,sendTarget] at htarget
    | cons g' rest =>
      obtain rfl : g' = g := by simpa [hk,sendTarget] using htarget
      have hall : p.allMarked :=
        hf.allMarked_of_not_serving (h := h) (by simp [hk,ReaderPos.serving])
      have hmoved : Moved s.switch (finishSend s.switch h g' ts true).1 h
          (.broadcasting rid rest) :=
        ⟨by simp [finishSend,hk,afterSend],hreg,by simp [LookupsExact],by simp⟩
      have hev : (finishSend s.switch h g' ts true).2 = [.toHost g' (broadcastFinishMsg rid g' ts)] := by
        simp [finishSend,hk,sendMsg,afterSendEvents]
      rw [hev]
      exact sent_finish (hf.switchIdle hmoved (by simp [hk,ReaderPos.items]) rfl rfl
        fun hne => absurd hall hne) hall rid
  | _ => simp [hk,sendTarget] at htarget

theorem Follows.send_wellFormed (hf : Follows c s p) {g : Fin N} {ts : U64}
    (htarget : sendTarget h (s.switch.reader h) = some g) :
    (sendMsg ts (s.switch.reader h)).WellFormed := by
  cases hk : s.switch.reader h with
  | dispatching m rest =>
    have hx : Item.fan m rest ∈ items s h := mem_items_of_reader (by simp [ReaderPos.items,hk])
    obtain ⟨i,stamp,-,rfl⟩ := hf.of_fan hx
    cases rest with
    | cons g' rest => exact input_wellFormed c h i g' ts
    | nil => exact ack_wellFormed c h i ts
  | replying m =>
    have hx : Item.reply m ∈ items s h := mem_items_of_reader (by simp [ReaderPos.items,hk])
    rcases hf.of_reply hx with ⟨i,stamp,-,rfl⟩ | ⟨i,stamp,-,rfl⟩
    · exact notReady_wellFormed c h i stamp
    · exact combined_wellFormed c h i stamp
  | broadcasting rid rest =>
    cases rest with
    | cons g' rest => exact broadcastFinish_wellFormed rid g' ts
    | nil => simp [hk,sendTarget] at htarget
  | _ => simp [hk,sendTarget] at htarget

/-- What a reader does in a system where no frame is malformed and no send fails its checks. -/
inductive SystemReaderMove (s : System N) (h : Fin N) : System N → List (Event N) → Prop
  | received {frame rest} : s.switch.reader h = .reading → s.toSwitch h = frame::rest →
      SystemReaderMove s h
        { s with
          switch := s.switch.setReader h (.got frame)
          toSwitch := Function.update s.toSwitch h rest } []
  | lost : s.switch.reader h = .reading → s.switch.opened h = false →
      SystemReaderMove s h { s with switch := s.switch.setReader h (.exited true) } []
  | sent {stamp g} : s.switch.writing h = some stamp →
      sendTarget h (s.switch.reader h) = some g →
      SystemReaderMove s h
        { s with
          switch := (finishSend s.switch h g stamp true).1
          toHost := Function.update s.toHost g
            (s.toHost g ++ [sendMsg stamp (s.switch.reader h)]) }
        (finishSend s.switch h g stamp true).2
  | go {ts w ev} : readerStep s.switch h (.go ts) = some (w,ev) →
      SystemReaderMove s h { s with switch := w } ev

theorem Follows.systemReader_move (hf : Follows c s p) {ts : U64}
    (hs : systemReader s h ts = some (s',ev)) : SystemReaderMove s h s' ev := by
  unfold systemReader at hs
  split at hs
  case h_1 hk =>
    split at hs
    · rename_i frame rest hq
      have hx : Item.wire frame ∈ items s h := by
        simp only [items,Multiset.mem_add,hq]
        exact Or.inl (Or.inl (Or.inr (by simp)))
      simp only [(hf.wire_wellFormed hx).receive,readerStep,hk,Option.map_some,Option.some.injEq,
        Prod.mk.injEq] at hs
      obtain ⟨rfl,rfl⟩ := hs
      exact .received hk hq
    · split_ifs at hs with hopened
      simp only [readerStep,hk,Option.map_some,Option.some.injEq,Prod.mk.injEq] at hs
      obtain ⟨rfl,rfl⟩ := hs
      exact .lost hk (by simpa using hopened)
  case h_2 hnot =>
    split at hs
    · rename_i stamp g hwriting htarget
      simp only [(hf.send_wellFormed htarget).srWrite,readerStep,hwriting,htarget,Option.map_some,
        Option.some.injEq,Prod.mk.injEq] at hs
      obtain ⟨rfl,rfl⟩ := hs
      exact .sent hwriting htarget
    · obtain ⟨⟨w,ev'⟩,hr,heq⟩ := Option.map_eq_some_iff.mp hs
      simp only [Prod.mk.injEq] at heq
      obtain ⟨rfl,rfl⟩ := heq
      exact .go hr

theorem readerReceive_simulated (hf : Follows c s p) {frame : Msg} {rest : List Msg}
    (hk : s.switch.reader h = .reading) (hq : s.toSwitch h = frame::rest) :
    Simulated c p { s with
      switch := s.switch.setReader h (.got frame)
      toSwitch := Function.update s.toSwitch h rest } [] := by
  have hreg : Registered (s.switch.setReader h (.got frame)) :=
    hf.registered.step (.reader h (.recv frame) _ _ (.recv frame hk))
  have hmoved : Moved s.switch (s.switch.setReader h (.got frame)) h (.got frame) :=
    ⟨by simp,hreg,by simp [LookupsExact],by simp⟩
  have hitems : items ({ s with
      switch := s.switch.setReader h (.got frame)
      toSwitch := Function.update s.toSwitch h rest } : System N) = items s := by
    funext g
    by_cases hg : g = h
    · subst hg
      simp only [items,setReader_reader,if_true,Function.update_self,hk,hq,ReaderPos.items,bag_cons]
      abel
    · simp [items,hg]
  refine .still (hf.switchSide hmoved rfl ?_ ?_ id hf.hosts hf.slots hf.foreign hf.finished
    fun hne => (hf.switchRunning hne).moved hmoved rfl rfl rfl rfl rfl rfl)
  · rw [hitems]
    exact hf.stocked
  · rw [hitems]
    exact fun _ _ hx _ => hx

/-- The connection of a reader is closed under it only after the last FINISH. -/
theorem readerLost_simulated (hf : Follows c s p) (hk : s.switch.reader h = .reading)
    (hclosed : s.switch.opened h = false) :
    Simulated c p { s with switch := s.switch.setReader h (.exited true) } [] := by
  have hreg : Registered (s.switch.setReader h (.exited true)) :=
    hf.registered.step (.reader h .recvFail _ _ (.recvFail hk))
  have hmoved : Moved s.switch (s.switch.setReader h (.exited true)) h (.exited true) :=
    ⟨by simp,hreg,by simp [LookupsExact],by simp⟩
  refine .still (hf.switchIdle hmoved (by simp [hk,ReaderPos.items]) rfl rfl fun hne => ?_)
  have hhosts := hf.registered.reader h (by simp [hk]) h
  simp [(hf.switchRunning hne).opened,hhosts] at hclosed

theorem systemReader_simulated (hf : Follows c s p) (hp : Orderly c.plan p) {ts : U64}
    (hs : systemReader s h ts = some (s',ev)) : Simulated c p s' ev := by
  cases hf.systemReader_move hs with
  | received hk hq => exact readerReceive_simulated hf hk hq
  | lost hk hclosed => exact readerLost_simulated hf hk hclosed
  | sent hwriting htarget => exact readerSent_simulated hf hp hwriting htarget
  | go hr => exact readerGo_simulated hf hp (readerStep_move hr)

theorem accept_simulated (hf : Follows c s p) {g : Fin N}
    (hs : switchStep s.switch (.accept g) = some (w,ev)) :
    Simulated c p { s with switch := w } ev := by
  have hmove := switchStep_move hs
  have hreg := hf.registered.step hmove
  cases hmove with
  | accept _ hg =>
    refine .still { hf with registered := hreg, switchRunning := ?_ }
    intro hne
    have hrun := hf.switchRunning hne
    exact { hrun with
      conn := by rw [hrun.conn]
      opened := by rw [hrun.opened] }

theorem start_simulated (hf : Follows c s p)
    (hs : switchStep s.switch (.start h) = some (w,ev)) :
    Simulated c p { s with switch := w } ev := by
  have hmove := switchStep_move hs
  have hreg := hf.registered.step hmove
  cases hmove with
  | start _ hk _ =>
    have hmoved : Moved s.switch (s.switch.setReader h .top) h .top :=
      ⟨by simp,hreg,by simp [LookupsExact],by simp⟩
    exact .still (hf.switchIdle hmoved (by simp [hk,ReaderPos.items]) rfl rfl
      fun hne => (hf.switchRunning hne).moved hmoved rfl rfl rfl rfl rfl rfl)

theorem main_simulated (hf : Follows c s p) (hs : switchStep s.switch .main = some (w,ev)) :
    Simulated c p { s with switch := w } ev := by
  have hmove := switchStep_move hs
  have hreg := hf.registered.step hmove
  cases hmove with
  | main _ _ hm =>
    have hall : p.allMarked := by
      intro g
      by_contra hg
      have hne : ¬p.allMarked := fun hall => hg (hall g)
      have hrun := hf.switchRunning hne
      have hserving := hrun.readers g
      cases hm with
      | joined _ hexited =>
        have hx := hexited g
        cases hk : s.switch.reader g <;> simp [hk,ReaderPos.isExited,ReaderPos.serving] at hx hserving
      | _ => simp_all [hrun.main]
    have hitems : items { s with switch := w } = items s := by
      funext g
      simp only [items,hm.reader]
    have hsign : ev.filterMap Event.sign = [] := by cases hm <;> rfl
    refine ⟨p,by rw [hsign]; exact .refl,{ hf with
      stocked := ?_, untagged := ?_, slots := ?_, foreign := ?_, finished := ?_, registered := hreg,
      lookups := ?_, unfailed := ?_, switchRunning := fun hne => absurd hall hne }⟩
    · rw [hitems]
      exact hf.stocked
    · rw [hitems]
      exact hf.untagged
    · change ∀ h i, i < c.num h → w.combineQueue _ = _
      rw [hm.combineQueue]
      exact hf.slots
    · change ∀ k, (w.combineQueue k).isSome = true → _
      rw [hm.combineQueue]
      exact hf.foreign
    · have : w.finishedHosts = s.switch.finishedHosts := by cases hm <;> rfl
      change ∀ h, h ∈ w.finishedHosts ↔ _
      rw [this]
      exact hf.finished
    · change ∀ r, LookupsExact (w.reader r)
      rw [hm.reader]
      exact hf.lookups
    · change ∀ r m g rest, w.reader r ≠ _
      rw [hm.reader]
      exact hf.unfailed

theorem Follows.step (hf : Follows c s p) (hp : Orderly c.plan p) {a : Action N}
    (hs : systemStep c s a = some (s',ev)) : Simulated c p s' ev := by
  cases a with
  | accept g =>
    obtain ⟨⟨w,ev'⟩,hr,heq⟩ := Option.map_eq_some_iff.mp hs
    simp only [Prod.mk.injEq] at heq
    obtain ⟨rfl,rfl⟩ := heq
    exact accept_simulated hf hr
  | start h =>
    obtain ⟨⟨w,ev'⟩,hr,heq⟩ := Option.map_eq_some_iff.mp hs
    simp only [Prod.mk.injEq] at heq
    obtain ⟨rfl,rfl⟩ := heq
    exact start_simulated hf hr
  | host h a =>
    obtain ⟨v,hr,rfl⟩ := systemStep_host hs
    exact hostStep_simulated hf hp hr
  | write h => exact hostWrite_simulated hf hp hs
  | receive h => exact hostReceive_simulated hf hs
  | reader h ts => exact systemReader_simulated hf hp hs
  | main =>
    obtain ⟨⟨w,ev'⟩,hr,heq⟩ := Option.map_eq_some_iff.mp hs
    simp only [Prod.mk.injEq] at heq
    obtain ⟨rfl,rfl⟩ := heq
    exact main_simulated hf hr

theorem Follows.initial (c : Config N) : Follows c (System.initial c) Progress.initial := by
  have hitems : items (System.initial c) = 0 := by
    funext h
    simp [items,System.initial,Host.items,Host.initial,Control.items,Computing.items,Sending.items,
      Reading.items,BlockingQueue.empty,Switch.initial,ReaderPos.items]
  constructor
  · intro h t
    rw [hitems]
    cases t <;> simp [Config.stock,Progress.initial,Stage.items,Job.items,Closing.items]
  · intro h x hx
    simp [hitems] at hx
  · intro h
    constructor
    · simp [System.initial,Host.initial]
    · intro i st hst
      obtain rfl : st = TokenWindowState.initial := by
        simp only [System.initial,Host.initial] at hst
        exact List.eq_of_mem_replicate (List.mem_of_getElem? hst)
      constructor <;> simp [TokenWindowState.initial,Progress.initial,Stage.admitted,
        Stage.attentionDone,Stage.dispatchAcked,Stage.pullInflight,Stage.isDone]
    · rfl
    · rfl
    · rfl
    · simp [System.initial,Host.initial,Progress.initial]
  · intro h i _
    rfl
  · intro k hk
    cases hk
  · intro h
    simp [System.initial,Switch.initial,Progress.initial]
  · exact Registered.initial
  · intro r m ids targets hr
    cases hr
  · intro r m g rest hr
    cases hr
  · intro _ h
    constructor <;> simp [System.initial,Host.initial,BlockingQueue.empty]
    split_ifs <;> simp
  · intro _
    exact ⟨rfl,rfl,rfl,fun _ => rfl,rfl⟩

/-- Every run of the system is a course of the protocol. -/
theorem exists_course {hist : List (Event N)} (hr : Run (systemMachine c) s hist) :
    ∃ p, Follows c s p ∧ Course c.plan p (hist.filterMap Event.sign) := by
  refine hr.simulated ?_ ?_
  · rintro s rfl
    exact Follows.initial c
  · intro s hist a s' ev p _ hf hc _ hs
    exact hf.step (orderly_of_course hc) hs

end INA2A

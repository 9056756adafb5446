import INA2A.Simulation

/-! Every step of a host keeps the relation, up to moves of the protocol. -/
namespace INA2A

open ByteBuffers BitWords EventMachine Inventory

variable {N : ℕ} {c : Config N} {s s' : System N} {p p' : Progress (Fin N) U64} {h : Fin N}

@[simp] theorem setHost_host_self (s : System N) (h : Fin N) (v : Host) :
    (s.setHost h v).host h = v := by simp [System.setHost]
@[simp] theorem setHost_host_ne (s : System N) {h g : Fin N} (v : Host) (hg : g ≠ h) :
    (s.setHost h v).host g = s.host g := by simp [System.setHost,hg]
@[simp] theorem setHost_switch (s : System N) (h : Fin N) (v : Host) :
    (s.setHost h v).switch = s.switch := rfl
@[simp] theorem setHost_toSwitch (s : System N) (h : Fin N) (v : Host) :
    (s.setHost h v).toSwitch = s.toSwitch := rfl
@[simp] theorem setHost_toHost (s : System N) (h : Fin N) (v : Host) :
    (s.setHost h v).toHost = s.toHost := rfl

theorem items_setHost {v : Host} {A B : Multiset (Item N)}
    (hv : v.items + A = (s.host h).items + B) :
    items (s.setHost h v) + Pi.single h A = items s + Pi.single h B := by
  apply exchange_of_place
  · intro g hg
    simp [items,hg]
  · simp only [items,setHost_host_self,setHost_switch,setHost_toSwitch,setHost_toHost]
    rw [show v.items + bag .wire (s.toSwitch h) + (s.switch.reader h).items +
      bag .down (s.toHost h) + A = (v.items + A) + bag .wire (s.toSwitch h) +
      (s.switch.reader h).items + bag .down (s.toHost h) by abel,hv]
    abel

theorem mem_items_of_host {x : Item N} (hx : x ∈ (s.host h).items) : x ∈ items s h := by
  simp only [items,Multiset.mem_add]
  exact Or.inl (Or.inl (Or.inl hx))

/-- The switch cannot tell the two apart. -/
structure SameView (p p' : Progress (Fin N) U64) : Prop where
  live : ∀ h i, (p'.stage h i).live = (p.stage h i).live
  pending : ∀ h i e, (p'.job h i e).pending = (p.job h i e).pending
  marked : ∀ h, p'.fin h = .marked ↔ p.fin h = .marked

namespace SameView

theorem refl (p : Progress (Fin N) U64) : SameView p p :=
  ⟨fun _ _ => rfl,fun _ _ _ => rfl,fun _ => Iff.rfl⟩

theorem waiting (hv : SameView p p') (h : Fin N) (i : ℕ) : p'.waiting h i = p.waiting h i := by
  simp [Progress.waiting,hv.pending]

theorem allMarked (hv : SameView p p') : p'.allMarked ↔ p.allMarked := by
  simp [Progress.allMarked,hv.marked]

theorem setStage {i : ℕ} {σ : Stage (Fin N) U64} (hσ : σ.live = (p.stage h i).live) :
    SameView p (p.setStage h i σ) := by
  refine ⟨?_,fun _ _ _ => rfl,fun _ => Iff.rfl⟩
  intro g j
  by_cases hgj : g = h ∧ j = i
  · obtain ⟨rfl,rfl⟩ := hgj
    simpa using hσ
  · simp [hgj]

theorem setJob {o e : Fin N} {i : ℕ} {τ : Job U64} (hτ : τ.pending = (p.job o i e).pending) :
    SameView p (p.setJob o i e τ) := by
  refine ⟨fun _ _ => rfl,?_,fun _ => Iff.rfl⟩
  intro g j f
  by_cases hgj : g = o ∧ j = i ∧ f = e
  · obtain ⟨rfl,rfl,rfl⟩ := hgj
    simpa using hτ
  · simp [hgj]

theorem setFin {f : Closing U64} (hf : f ≠ .marked) (hp : p.fin h ≠ .marked) :
    SameView p (p.setFin h f) := by
  refine ⟨fun _ _ => rfl,fun _ _ _ => rfl,?_⟩
  intro g
  by_cases hg : g = h
  · subst hg
    simp [hf,hp]
  · simp [hg]

end SameView

theorem Follows.hostSide (hf : Follows c s p) (hview : SameView p p')
    (hsw : s'.switch = s.switch) (hoff : ∀ g, g ≠ h → s'.host g = s.host g)
    (hst : Stocked Item.tag (items s') (c.stock p'))
    (hun : ∀ g, ∀ x ∈ items s' g, x.tag = none → x ∈ items s g)
    (hmatch : HostMatches c p' h (s'.host h))
    (hother : ∀ g, g ≠ h → HostMatches c p' g (s.host g))
    (hrun : ¬p.allMarked → HostRunning (s'.host h)) : Follows c s' p' where
  stocked := hst
  untagged g x hx ht := by
    rw [hview.allMarked]
    exact hf.untagged g x (hun g x hx ht) ht
  hosts g := by
    by_cases hg : g = h
    · subst hg
      exact hmatch
    · rw [hoff g hg]
      exact hother g hg
  slots g i hi := by
    rw [hsw,hf.slots g i hi,hview.live,hview.waiting]
  foreign := by
    rw [hsw]
    exact hf.foreign
  finished g := by
    rw [hsw,hf.finished,hview.marked]
  registered := by
    rw [hsw]
    exact hf.registered
  lookups := by
    rw [hsw]
    exact hf.lookups
  unfailed := by
    rw [hsw]
    exact hf.unfailed
  hostRunning hall g := by
    rw [hview.allMarked] at hall
    by_cases hg : g = h
    · subst hg
      exact hrun hall
    · rw [hoff g hg]
      exact hf.hostRunning hall g
  switchRunning hall := by
    rw [hview.allMarked] at hall
    rw [hsw]
    exact hf.switchRunning hall

theorem HostMatches.congr {v : Host} (hm : HostMatches c p h v)
    (hstage : ∀ i, p'.stage h i = p.stage h i) (hbase : p'.base h = p.base h)
    (hnext : p'.next h = p.next h) (hfin : p'.fin h = p.fin h) : HostMatches c p' h v where
  length := hm.length
  tokens i st hst := by
    rw [hstage]
    exact hm.tokens i st hst
  base := hm.base.trans hbase.symm
  next := hm.next.trans hnext.symm
  received := hm.received.trans hbase.symm
  finishEnqueued := by
    rw [hfin]
    exact hm.finishEnqueued

theorem HostMatches.of_same {v v' : Host} (hm : HostMatches c p h v)
    (htokens : v'.tokenStates = v.tokenStates) (hbase : v'.windowBase = v.windowBase)
    (hnext : v'.nextToAdmit = v.nextToAdmit) (hrec : v'.receivedCombines = v.receivedCombines)
    (hfin : v'.finishEnqueued = v.finishEnqueued) : HostMatches c p h v' where
  length := by
    rw [htokens]
    exact hm.length
  tokens := by
    rw [htokens]
    exact hm.tokens
  base := hbase.trans hm.base
  next := hnext.trans hm.next
  received := hrec.trans hm.received
  finishEnqueued := by
    rw [hfin]
    exact hm.finishEnqueued

theorem TokenMatches.of_flags {i : ℕ} {σ σ' : Stage (Fin N) U64} {st : TokenWindowState}
    (hm : TokenMatches c h i σ st)
    (hflags : σ'.admitted = σ.admitted ∧ σ'.attentionDone = σ.attentionDone ∧
      σ'.dispatchAcked = σ.dispatchAcked ∧ σ'.pullInflight = σ.pullInflight ∧
      σ'.isDone = σ.isDone) : TokenMatches c h i σ' st := by
  obtain ⟨hadm,hatt,hack,hpull,hdone⟩ := hflags
  constructor
  · rw [hadm,hm.admitted]
  · rw [hadm,hm.attentionQueued]
  · rw [hatt,hm.attentionDone]
  · rw [hatt,hm.dispatchEnqueued]
  · rw [hack,hm.dispatchAcked]
  · rw [hpull,hm.pullInflight]
  · rw [hdone,hm.combineDone]
  · rw [hdone]
    exact hm.combinePayload

theorem HostMatches.setStage {v : Host} (hm : HostMatches c p h v) {i : ℕ}
    {σ : Stage (Fin N) U64}
    (hflags : σ.admitted = (p.stage h i).admitted ∧ σ.attentionDone = (p.stage h i).attentionDone ∧
      σ.dispatchAcked = (p.stage h i).dispatchAcked ∧ σ.pullInflight = (p.stage h i).pullInflight ∧
      σ.isDone = (p.stage h i).isDone) : HostMatches c (p.setStage h i σ) h v :=
  { hm with
    tokens := by
      intro j st hst
      by_cases hj : j = i
      · subst hj
        simpa using (hm.tokens j st hst).of_flags hflags
      · simpa [hj] using hm.tokens j st hst }

theorem HostMatches.setFin {v : Host} (hm : HostMatches c p h v) {f : Closing U64}
    (hf : f ≠ .unfinished ↔ p.fin h ≠ .unfinished) : HostMatches c (p.setFin h f) h v :=
  { hm with
    finishEnqueued := by
      rw [hm.finishEnqueued]
      simpa using hf.symm }

theorem updateTokens_length (states : List TokenWindowState) (l : List ℕ)
    (f : TokenWindowState → TokenWindowState) :
    (updateTokens states l f).length = states.length := by
  induction l generalizing states with
  | nil => rfl
  | cons i l ih =>
    rw [updateTokens,List.foldl_cons,← updateTokens,ih,List.length_modify]

theorem updateTokens_get (states : List TokenWindowState) {l : List ℕ} (hl : l.Nodup)
    (f : TokenWindowState → TokenWindowState) (j : ℕ) :
    (updateTokens states l f)[j]? = if j ∈ l then states[j]?.map f else states[j]? := by
  induction l generalizing states with
  | nil => simp [updateTokens]
  | cons i l ih =>
    obtain ⟨hi,hl⟩ := List.nodup_cons.mp hl
    rw [updateTokens,List.foldl_cons,← updateTokens,ih _ hl,List.getElem?_modify]
    by_cases hj : i = j
    · subst hj
      simp [hi]
    · simp [hj,Ne.symm hj]

theorem tokens_update {states : List TokenWindowState}
    (htok : ∀ i st, states[i]? = some st → TokenMatches c h i (p.stage h i) st) {l : List ℕ}
    (hl : l.Nodup) {σ : Stage (Fin N) U64} {f : TokenWindowState → TokenWindowState}
    (hf : ∀ i ∈ l, ∀ st, TokenMatches c h i (p.stage h i) st → TokenMatches c h i σ (f st))
    (hstage : ∀ j, p'.stage h j = if j ∈ l then σ else p.stage h j) :
    ∀ i st, (updateTokens states l f)[i]? = some st → TokenMatches c h i (p'.stage h i) st := by
  intro i st hst
  rw [updateTokens_get _ hl] at hst
  rw [hstage]
  split_ifs at hst ⊢ with hi
  · obtain ⟨st₀,hst₀,rfl⟩ := Option.map_eq_some_iff.mp hst
    exact hf i hi st₀ (htok i st₀ hst₀)
  · exact htok i st hst

theorem HostMatches.updateToken {v : Host} (hm : HostMatches c p h v) {i : ℕ}
    {σ : Stage (Fin N) U64} {f : TokenWindowState → TokenWindowState}
    (hf : ∀ st, TokenMatches c h i (p.stage h i) st → TokenMatches c h i σ (f st)) :
    HostMatches c (p.setStage h i σ) h { v with tokenStates := updateTokens v.tokenStates [i] f } :=
  { hm with
    length := by
      change (updateTokens v.tokenStates [i] f).length = _
      rw [updateTokens_length,hm.length]
    tokens := tokens_update hm.tokens (List.nodup_singleton i) (by simpa using hf) (by simp) }

section moves

variable {v : Host}

theorem Follows.idle (hf : Follows c s p)
    (hitems : (v.items : Multiset (Item N)) = (s.host h).items)
    (hmatch : HostMatches c p h v) (hrun : ¬p.allMarked → HostRunning v) :
    Follows c (s.setHost h v) p := by
  have heq : items (s.setHost h v) = items s := by
    have := items_setHost (s:=s) (h:=h) (v:=v) (A:=0) (B:=0) (by simpa using hitems)
    simpa using this
  refine hf.hostSide (h := h) (SameView.refl p) rfl (fun g hg => by simp [hg]) ?_ ?_ (by simpa using hmatch)
    (fun g _ => hf.hosts g) (by simpa using hrun)
  · rw [heq]
    exact hf.stocked
  · rw [heq]
    exact fun _ _ hx _ => hx

theorem Follows.tokenMove (hf : Follows c s p) {i : ℕ} {σ : Stage (Fin N) U64}
    (hi : i < c.num h) (hlive : σ.live = (p.stage h i).live)
    (hsw : s'.switch = s.switch) (hoff : ∀ g, g ≠ h → s'.host g = s.host g)
    (hitems : items s' + Pi.single h ((p.stage h i).items c h i) =
      items s + Pi.single h (σ.items c h i))
    (hmatch : HostMatches c (p.setStage h i σ) h (s'.host h))
    (hrun : ¬p.allMarked → HostRunning (s'.host h)) : Follows c s' (p.setStage h i σ) := by
  refine hf.hostSide (SameView.setStage hlive) hsw hoff (stocked_setStage hf.stocked hi hitems) ?_
    hmatch ?_ hrun
  · intro g x hx ht
    rcases mem_of_exchange hitems hx with hx | ⟨rfl,hx⟩
    · exact hx
    · simp [Stage.items_tag c hi σ x hx] at ht
  · intro g hg
    exact (hf.hosts g).congr (fun i => by simp [hg]) rfl rfl rfl

theorem Follows.jobMove (hf : Follows c s p) {o : Fin N} {i : ℕ} {τ : Job U64}
    (hi : i < c.num o) (hpend : τ.pending = (p.job o i h).pending)
    (hsw : s'.switch = s.switch) (hoff : ∀ g, g ≠ h → s'.host g = s.host g)
    (hitems : items s' + Pi.single h ((p.job o i h).items c o i h) =
      items s + Pi.single h (τ.items c o i h))
    (hmatch : HostMatches c p h (s'.host h))
    (hrun : ¬p.allMarked → HostRunning (s'.host h)) : Follows c s' (p.setJob o i h τ) := by
  refine hf.hostSide (SameView.setJob hpend) hsw hoff (stocked_setJob hf.stocked hi hitems) ?_
    (hmatch.congr (fun _ => rfl) rfl rfl rfl) ?_ hrun
  · intro g x hx ht
    rcases mem_of_exchange hitems hx with hx | ⟨rfl,hx⟩
    · exact hx
    · simp [Job.items_tag c hi g τ x hx] at ht
  · intro g hg
    exact (hf.hosts g).congr (fun _ => rfl) rfl rfl rfl

theorem Follows.finMove (hf : Follows c s p) {f : Closing U64} (hmark : f ≠ .marked)
    (hmark' : p.fin h ≠ .marked)
    (hsw : s'.switch = s.switch) (hoff : ∀ g, g ≠ h → s'.host g = s.host g)
    (hitems : items s' + Pi.single h ((p.fin h).items c h) = items s + Pi.single h (f.items c h))
    (hmatch : HostMatches c (p.setFin h f) h (s'.host h))
    (hrun : ¬p.allMarked → HostRunning (s'.host h)) : Follows c s' (p.setFin h f) := by
  refine hf.hostSide (SameView.setFin hmark hmark') hsw hoff (stocked_setFin hf.stocked hitems) ?_
    hmatch ?_ hrun
  · intro g x hx ht
    rcases mem_of_exchange hitems hx with hx | ⟨rfl,hx⟩
    · exact hx
    · simp [Closing.items_tag c g f x hx] at ht
  · intro g hg
    exact (hf.hosts g).congr (fun _ => rfl) rfl rfl (by simp [hg])

end moves

/-- The step to `s'` is matched by moves of the protocol that show what it showed. -/
def Simulated (c : Config N) (p : Progress (Fin N) U64) (s' : System N) (ev : List (Event N)) :
    Prop :=
  ∃ p', Moves (Advance c.plan) p (ev.filterMap Event.sign) p' ∧ Follows c s' p'

theorem Simulated.still (hf : Follows c s' p) : Simulated c p s' [] := ⟨p,.refl,hf⟩

theorem Simulated.one {ev : List (Event N)} {ls : List (Sign (Fin N))}
    (ha : Advance c.plan p ls p') (hev : ev.filterMap Event.sign = ls) (hf : Follows c s' p') :
    Simulated c p s' ev := ⟨p',by rw [hev]; exact .single ha,hf⟩

theorem Follows.notMarked (hf : Follows c s p) (hp : Orderly c.plan p) {x : Item N}
    (hx : x ∈ items s h) (hdown : ∀ m, x ≠ .down m) : ¬p.allMarked := by
  intro hall
  obtain ⟨rid,ts,rfl⟩ := hf.item_of_allMarked hp hall hx
  exact hdown _ rfl

theorem workload_lt (c : Config N) {i : ℕ} (hi : i < c.num h) :
    (c.env h).workload[i]? = some (c.token h i) := by
  rw [env_workload,workload_get,if_pos hi]

theorem filterMap_enqueued {m : Msg} {n : Note (Fin N)} (hn : noteUp m = some n) :
    [Event.enqueued h m].filterMap Event.sign = [.enq h n] := by simp [Event.sign,hn]

theorem filterMap_toSwitch {m : Msg} {n : Note (Fin N)} (hn : noteUp m = some n) :
    [Event.toSwitch h m].filterMap Event.sign = [.up h n] := by simp [Event.sign,hn]

theorem push_pull (hf : Follows c s p) (hp : Orderly c.plan p) {i : ℕ} {pulls : List ℕ}
    {moved : Bool} {fin : Option Msg} {ts : U64}
    (hk : (s.host h).control = .pulling (i::pulls) moved fin) {v : Host} {ev : List (Event N)}
    (hs : controlPush h (c.env h) (s.host h) ts = some (v,ev)) :
    Simulated c p (s.setHost h v) ev := by
  have hx : Item.chosen i ∈ items s h :=
    mem_items_of_host (by simp [Host.items,Control.items,hk])
  have hst := hf.of_chosen hx
  have hi : i < c.num h := hp.lt_num (by simp [hst])
  have hrun := hf.hostRunning (hf.notMarked hp hx (by simp)) h
  simp only [controlPush,hk,workload_lt c hi,Option.some.injEq,pushSend,hrun.sendOpen,
    BlockingQueue.push,Prod.mk.injEq] at hs
  obtain ⟨rfl,rfl⟩ := hs
  refine Simulated.one (.token h i [.enq h (.pull i)] (.asking ts) (by rw [hst]; exact .ask ts))
    (filterMap_enqueued (noteUp_pull c hi ts))
    (hf.tokenMove hi (by simp [hst,Stage.live,Stage.early,Stage.late]) rfl
      (fun g hg => by simp [hg]) (items_setHost ?_) ?_ ?_)
  · simp only [Host.items,Control.items,hk,hst,Stage.items,bag_cons]
    change _ = _ + {Item.out (combinePullMsg (c.env h) (c.token h i) i ts)}
    simp only [Bool.false_eq_true,if_false,bag_append,bag_cons,bag_nil]
    abel
  · refine ((hf.hosts h).of_same ?_ ?_ ?_ ?_ ?_).setStage ?_ <;>
      simp [hst,Stage.admitted,Stage.attentionDone,Stage.dispatchAcked,Stage.pullInflight,
        Stage.isDone]
  · intro _
    refine ⟨?_,?_,?_,?_,?_,?_,?_⟩ <;> simp [hrun.running,hrun.computeOpen,hrun.computing,
      hrun.sending,hrun.reading,hrun.turn]

theorem push_task (hf : Follows c s p) (hp : Orderly c.plan p) {i : ℕ} {tasks : List ℕ}
    {fin : Option Msg} {ts : U64} (hk : (s.host h).control = .admitted (i::tasks) fin) {v : Host}
    {ev : List (Event N)} (hs : controlPush h (c.env h) (s.host h) ts = some (v,ev)) :
    Simulated c p (s.setHost h v) ev := by
  have hx : Item.task i ∈ items s h :=
    mem_items_of_host (by simp [Host.items,Control.items,hk])
  have hrun := hf.hostRunning (hf.notMarked hp hx (by simp)) h
  simp only [controlPush,hk,Option.some.injEq,pushCompute,hrun.computeOpen,BlockingQueue.push,
    Prod.mk.injEq] at hs
  obtain ⟨rfl,rfl⟩ := hs
  refine Simulated.still (hf.idle ?_ ((hf.hosts h).of_same rfl rfl rfl rfl rfl) ?_)
  · simp only [Host.items,Control.items,hk,bag_cons,bag_nil,Bool.false_eq_true,if_false,bag_append,
      taskItem]
    abel
  · intro _
    refine ⟨?_,?_,?_,?_,?_,?_,?_⟩ <;> simp [hrun.running,hrun.sendOpen,hrun.computing,
      hrun.sending,hrun.reading,hrun.turn]

theorem push_finish (hf : Follows c s p) (hp : Orderly c.plan p) {m : Msg} {ts : U64}
    (hk : (s.host h).control = .admitted [] (some m)) {v : Host} {ev : List (Event N)}
    (hs : controlPush h (c.env h) (s.host h) ts = some (v,ev)) :
    Simulated c p (s.setHost h v) ev := by
  have hx : Item.decided m ∈ items s h :=
    mem_items_of_host (by simp [Host.items,Control.items,hk])
  obtain ⟨stamp,hfin,rfl⟩ := hf.of_decided hx
  have hrun := hf.hostRunning (hf.notMarked hp hx (by simp)) h
  simp only [controlPush,hk,Option.some.injEq,pushSend,hrun.sendOpen,BlockingQueue.push,
    Prod.mk.injEq] at hs
  obtain ⟨rfl,rfl⟩ := hs
  refine Simulated.one (.close h [.enq h .finish] (.out stamp) (by rw [hfin]; exact .enqFinish _))
    (filterMap_enqueued rfl) (hf.finMove (by simp) (by simp [hfin]) rfl (fun g hg => by simp [hg])
      (items_setHost ?_) ?_ ?_)
  · simp only [Host.items,Control.items,hk,hfin,Closing.items,bag_cons,bag_nil,Bool.false_eq_true,
      if_false,bag_append,Option.toList]
    abel
  · refine ((hf.hosts h).of_same ?_ ?_ ?_ ?_ ?_).setFin (by simp [hfin]) <;> simp
  · intro _
    refine ⟨?_,?_,?_,?_,?_,?_,?_⟩ <;> simp [hrun.running,hrun.computeOpen,hrun.computing,
      hrun.sending,hrun.reading,hrun.turn]

theorem admittedIndices_eq (env : HostEnv) (base fuel next : ℕ) :
    ∃ n ≤ fuel, admittedIndices env base fuel next = List.range' next n ∧
      ∀ k < n, ((next + k : ℕ) : ℤ) < int32 (base + env.windowSize) := by
  induction fuel generalizing next with
  | zero => exact ⟨0,le_rfl,rfl,by simp⟩
  | succ fuel ih =>
    rw [admittedIndices]
    split_ifs with hguard
    · obtain ⟨n,hn,heq,hall⟩ := ih (next + 1)
      refine ⟨n + 1,by omega,by rw [heq,List.range'_succ],?_⟩
      intro k hk
      cases k with
      | zero => simpa using hguard
      | succ k =>
        have := hall k (by omega)
        rwa [show next + 1 + k = next + (k + 1) by omega] at this
    · exact ⟨0,by omega,rfl,by simp⟩

/-- The next `n` tokens of a host admitted. -/
def Progress.admitting (p : Progress (Fin N) U64) (h : Fin N) (n : ℕ) : Progress (Fin N) U64 :=
  { p with
    stage := fun g j =>
      if g = h ∧ p.next h ≤ j ∧ j < p.next h + n then .task else p.stage g j
    next := Function.update p.next h (p.next h + n) }

theorem admitting_zero (p : Progress (Fin N) U64) (h : Fin N) : p.admitting h 0 = p := by
  have hstage : (p.admitting h 0).stage = p.stage := by
    funext g j
    simp only [Progress.admitting,Nat.add_zero]
    rw [if_neg (by omega)]
  have hnext : (p.admitting h 0).next = p.next := by simp [Progress.admitting]
  calc p.admitting h 0
      = { p with stage := (p.admitting h 0).stage, next := (p.admitting h 0).next } := rfl
    _ = p := by rw [hstage,hnext]

theorem admitting_succ (p : Progress (Fin N) U64) (h : Fin N) (n : ℕ) :
    p.admitting h (n + 1) = { (p.admitting h n).setStage h ((p.admitting h n).next h) .task with
      next := Function.update (p.admitting h n).next h ((p.admitting h n).next h + 1) } := by
  have hnext : (p.admitting h n).next h = p.next h + n := by simp [Progress.admitting]
  rw [hnext]
  have hstage : (p.admitting h (n + 1)).stage =
      ((p.admitting h n).setStage h (p.next h + n) .task).stage := by
    funext g j
    simp only [Progress.admitting,Progress.setStage_stage]
    by_cases hg : g = h
    · by_cases hj : j = p.next h + n
      · rw [if_pos (by omega),if_pos ⟨hg,hj⟩]
      · rw [if_neg (c := g = h ∧ j = p.next h + n) (by omega)]
        congr 1
        rw [eq_iff_iff]
        omega
    · simp [hg]
  calc p.admitting h (n + 1)
      = { p with
          stage := (p.admitting h (n + 1)).stage
          next := Function.update p.next h (p.next h + n + 1) } := rfl
    _ = _ := by
        rw [hstage]
        simp [Progress.admitting,Progress.setStage]

theorem admit_moves (n : ℕ) (hn : p.next h + n ≤ c.num h)
    (hw : ∀ k < n, p.next h + k < p.base h + c.plan.window h) :
    Moves (Advance c.plan) p [] (p.admitting h n) := by
  induction n with
  | zero =>
    rw [admitting_zero]
    exact .refl
  | succ n ih =>
    have hprev := ih (by omega) fun k hk => hw k (by omega)
    have hnext : (p.admitting h n).next h = p.next h + n := by simp [Progress.admitting]
    rw [admitting_succ]
    refine hprev.silent (.admission h ?_ ?_)
    · rw [hnext]
      exact hn
    · rw [hnext]
      exact hw n (by omega)

theorem stocked_admitting {I : Fin N → Multiset (Item N)} (hp : Orderly c.plan p)
    (hst : Stocked Item.tag I (c.stock p)) (n : ℕ) (hn : p.next h + n ≤ c.num h) :
    Stocked Item.tag (I + Pi.single h (bag .task (List.range' (p.next h) n)))
      (c.stock (p.admitting h n)) := by
  induction n with
  | zero =>
    rw [admitting_zero]
    simpa using hst
  | succ n ih =>
    have hnext : (p.admitting h n).next h = p.next h + n := by simp [Progress.admitting]
    have hraw : (p.admitting h n).stage h (p.next h + n) = .raw := by
      simp only [Progress.admitting,lt_irrefl,and_false,if_false]
      exact (hp.raw h _).mpr (by omega)
    rw [admitting_succ,hnext]
    refine stocked_setStage (p := p.admitting h n) (σ := .task) (ih (by omega))
      (show p.next h + n < c.num h by omega) ?_
    rw [hraw,List.range'_concat,bag_append,Pi.single_add]
    simp only [Stage.items,Nat.one_mul,bag_cons,bag_nil,Pi.single_zero,add_zero]
    rw [add_assoc]

theorem push_admission (hf : Follows c s p) (hp : Orderly c.plan p) {fin : Option Msg}
    {ts : U64} (hk : (s.host h).control = .pulling [] true fin) {v : Host} {ev : List (Event N)}
    (hs : controlPush h (c.env h) (s.host h) ts = some (v,ev)) :
    Simulated c p (s.setHost h v) ev := by
  have hm := hf.hosts h
  simp only [controlPush,hk,Option.some.injEq,Prod.mk.injEq] at hs
  obtain ⟨rfl,rfl⟩ := hs
  obtain ⟨n,hfuel,heq,hguard⟩ := admittedIndices_eq (c.env h) (s.host h).windowBase
    ((c.env h).numTokens - (s.host h).nextToAdmit) (s.host h).nextToAdmit
  have hle := hp.next_le h
  simp only [env_numTokens,hm.next,hm.base] at hfuel heq hguard
  have hnum : p.next h + n ≤ c.num h := by
    change p.next h ≤ c.num h at hle
    omega
  have hwin : ∀ k < n, p.next h + k < p.base h + c.plan.window h := by
    intro k hk
    have hlow : -2 ^ 31 ≤ (p.base h : ℤ) + (c.env h).windowSize := by
      have := (c.args h).windowSize_ge
      change _ ≤ (p.base h : ℤ) + (c.args h).windowSize
      omega
    have hlt := (hguard k hk).trans_le (int32_le hlow)
    change p.next h + k < p.base h + (c.args h).windowSize.toNat
    have hlt' : ((p.next h + k : ℕ) : ℤ) < p.base h + (c.args h).windowSize := hlt
    omega
  have hview : SameView p (p.admitting h n) := by
    refine ⟨?_,fun _ _ _ => rfl,fun _ => Iff.rfl⟩
    intro g j
    simp only [Progress.admitting]
    split_ifs with hgj
    · obtain ⟨rfl,hj,-⟩ := hgj
      rw [(hp.raw g j).mpr hj]
      rfl
    · rfl
  have hitems : items (s.setHost h (tryAdmitRawTokens (c.env h) (s.host h) fin)) =
      items s + Pi.single h (bag .task (List.range' (p.next h) n)) := by
    have := items_setHost (s := s) (h := h) (v := tryAdmitRawTokens (c.env h) (s.host h) fin) (A := 0)
      (B := bag .task (List.range' (p.next h) n)) (by
        simp only [tryAdmitRawTokens,env_numTokens,hm.next,hm.base,heq,Host.items,Control.items,hk,
          bag_nil]
        abel)
    simpa using this
  refine ⟨p.admitting h n,admit_moves n hnum hwin,
    hf.hostSide (h := h) hview rfl (fun g hg => by simp [hg]) ?_ ?_ ?_ ?_ ?_⟩
  · rw [hitems]
    exact stocked_admitting hp hf.stocked n hnum
  · intro g x hx ht
    rw [hitems] at hx
    by_cases hg : g = h
    · subst hg
      simp only [Pi.add_apply,Pi.single_eq_same,Multiset.mem_add] at hx
      rcases hx with hx | hx
      · exact hx
      · obtain ⟨i,-,rfl⟩ := mem_bag.mp hx
        cases ht
    · simpa [hg] using hx
  · rw [setHost_host_self]
    constructor
    · rw [tryAdmitRawTokens]
      exact (updateTokens_length _ _ _).trans hm.length
    · simp only [tryAdmitRawTokens,env_numTokens,hm.next,hm.base,heq]
      refine tokens_update (p := p) (σ := .task) hm.tokens List.nodup_range' ?_ ?_
      · intro i hi st hmatch
        rw [(hp.raw h i).mpr (List.mem_range'_1.mp hi).1] at hmatch
        constructor <;> simp [Stage.admitted,Stage.attentionDone,Stage.dispatchAcked,
          Stage.pullInflight,Stage.isDone,hmatch.attentionDone,hmatch.dispatchEnqueued,
          hmatch.dispatchAcked,hmatch.pullInflight,hmatch.combineDone]
      · intro j
        simp [Progress.admitting,List.mem_range'_1]
    · exact hm.base
    · simp [tryAdmitRawTokens,hm.next,hm.base,heq,Progress.admitting]
    · exact hm.received
    · exact hm.finishEnqueued
  · intro g hg
    exact (hf.hosts g).congr (fun i => by simp [Progress.admitting,hg]) rfl
      (by simp [Progress.admitting,hg]) rfl
  · intro hall
    have hrun := hf.hostRunning hall h
    simp only [setHost_host_self,tryAdmitRawTokens]
    exact { hrun with }

def Progress.choosing (p : Progress (Fin N) U64) (h : Fin N) (l : List ℕ) : Progress (Fin N) U64 :=
  { p with stage := fun g j => if g = h ∧ j ∈ l then .chosen else p.stage g j }

theorem choosing_cons (p : Progress (Fin N) U64) (h : Fin N) (i : ℕ) (l : List ℕ) :
    p.choosing h (i::l) = (p.choosing h l).setStage h i .chosen := by
  have hstage : (p.choosing h (i::l)).stage = ((p.choosing h l).setStage h i .chosen).stage := by
    funext g j
    simp only [Progress.choosing,Progress.setStage_stage,List.mem_cons]
    by_cases hgj : g = h ∧ j = i
    · rw [if_pos ⟨hgj.1,Or.inl hgj.2⟩,if_pos hgj]
    · rw [if_neg hgj]
      congr 1
      rw [eq_iff_iff]
      tauto
  calc p.choosing h (i::l) = { p with stage := (p.choosing h (i::l)).stage } := rfl
    _ = _ := by rw [hstage]; rfl

theorem choose_moves {l : List ℕ} (hl : l.Nodup) (hidle : ∀ i ∈ l, p.stage h i = .idle) :
    Moves (Advance c.plan) p [] (p.choosing h l) := by
  induction l with
  | nil => simpa [Progress.choosing] using Moves.refl
  | cons i l ih =>
    obtain ⟨hi,hl⟩ := List.nodup_cons.mp hl
    have hprev := ih hl fun j hj => hidle j (List.mem_cons_of_mem _ hj)
    have hst : (p.choosing h l).stage h i = .idle := by
      simpa [Progress.choosing,hi] using hidle i (by simp)
    rw [choosing_cons]
    exact hprev.silent (.token h i [] .chosen (by rw [hst]; exact .choose))

theorem stocked_choosing {I : Fin N → Multiset (Item N)} (hst : Stocked Item.tag I (c.stock p))
    {l : List ℕ} (hl : l.Nodup) (hidle : ∀ i ∈ l, p.stage h i = .idle)
    (hnum : ∀ i ∈ l, i < c.num h) :
    Stocked Item.tag (I + Pi.single h (bag .chosen l)) (c.stock (p.choosing h l)) := by
  induction l with
  | nil => simpa [Progress.choosing] using hst
  | cons i l ih =>
    obtain ⟨hi,hl⟩ := List.nodup_cons.mp hl
    have hprev := ih hl (fun j hj => hidle j (List.mem_cons_of_mem _ hj))
      fun j hj => hnum j (List.mem_cons_of_mem _ hj)
    have hstage : (p.choosing h l).stage h i = .idle := by
      simpa [Progress.choosing,hi] using hidle i (by simp)
    rw [choosing_cons]
    refine stocked_setStage (σ := .chosen) hprev (hnum i (by simp)) ?_
    rw [hstage,bag_cons,Pi.single_add]
    simp only [Stage.items,Pi.single_zero,add_zero]
    abel

/-- The window of a host moved on by `n` tokens. -/
def Progress.sliding (p : Progress (Fin N) U64) (h : Fin N) (n : ℕ) : Progress (Fin N) U64 :=
  { p with base := Function.update p.base h (p.base h + n) }

theorem slide_moves (n : ℕ) (hn : p.base h + n ≤ c.num h)
    (hdone : ∀ k < n, p.stage h (p.base h + k) = .done) :
    Moves (Advance c.plan) p [] (p.sliding h n) := by
  induction n with
  | zero => simpa [Progress.sliding] using Moves.refl
  | succ n ih =>
    have hprev := ih (by omega) fun k hk => hdone k (by omega)
    have hbase : (p.sliding h n).base h = p.base h + n := by simp [Progress.sliding]
    have hstep : Advance c.plan (p.sliding h n) [] (p.sliding h (n + 1)) := by
      have := Advance.slide (S := c.plan) (p := p.sliding h n) h (by rw [hbase]; exact hn)
        (by rw [hbase]; exact hdone n (by omega))
      rw [hbase] at this
      simpa [Progress.sliding,Nat.add_assoc] using this
    exact hprev.silent hstep

theorem slideWindow_eq (states : List TokenWindowState) (fuel base : ℕ) :
    ∃ n ≤ fuel, slideWindow states fuel base = base + n ∧
      ∀ k < n, ∃ st, states[base + k]? = some st ∧ st.combineDone = true := by
  induction fuel generalizing base with
  | zero => exact ⟨0,le_rfl,rfl,by simp⟩
  | succ fuel ih =>
    rw [slideWindow]
    split_ifs with hdone
    · obtain ⟨n,hn,heq,hall⟩ := ih (base + 1)
      refine ⟨n + 1,by omega,by rw [heq]; omega,?_⟩
      intro k hk
      cases k with
      | zero =>
        obtain ⟨st,hst,hst'⟩ := (Option.any_eq_true _ _).mp hdone
        exact ⟨st,by simpa using hst,hst'⟩
      | succ k =>
        obtain ⟨st,hst,hst'⟩ := hall k (by omega)
        exact ⟨st,by rwa [show base + (k + 1) = base + 1 + k by omega],hst'⟩
    · exact ⟨0,by omega,rfl,by simp⟩

theorem Stage.eq_done {σ : Stage (Fin N) U64} (h : σ.isDone = true) : σ = .done := by
  cases σ <;> simp [Stage.isDone] at h ⊢

/-- A token is due for a pull only when it is idle. -/
theorem idle_of_pullDue {i now : ℕ} {σ : Stage (Fin N) U64} {st : TokenWindowState}
    (hm : TokenMatches c h i σ st) (hdue : st.pullDue now = true) : σ = .idle := by
  simp only [TokenWindowState.pullDue,Bool.and_eq_true,Bool.not_eq_true',hm.dispatchAcked,
    hm.combineDone,hm.pullInflight] at hdue
  obtain ⟨⟨⟨⟨-,hack⟩,hdone⟩,hpull⟩,-⟩ := hdue
  cases σ <;> simp [Stage.dispatchAcked,Stage.isDone,Stage.pullInflight] at hack hdone hpull ⊢

theorem Control.items_of_idle {k : Control} (hk : k.idle = true) :
    (k.items : Multiset (Item N)) = 0 := by
  cases k with
  | pulling pulls moved fin => simp [Control.idle] at hk
  | admitted tasks fin =>
    cases tasks <;> cases fin <;> simp [Control.idle] at hk
    simp [Control.items]

theorem untagged_single {I : Multiset (Item N)} (hI : ∀ x ∈ I, x.tag ≠ none) {g : Fin N} {x : Item N}
    (hx : x ∈ (items s + Pi.single h I : Fin N → Multiset (Item N)) g) (ht : x.tag = none) :
    x ∈ items s g := by
  by_cases hg : g = h
  · subst hg
    simp only [Pi.add_apply,Pi.single_eq_same,Multiset.mem_add] at hx
    exact hx.resolve_right fun hmem => hI x hmem ht
  · simpa [hg] using hx

theorem needPull_idle (hm : HostMatches c p h (s.host h)) {now i : ℕ}
    (hi : i ∈ needPull (s.host h) now) : p.stage h i = .idle := by
  obtain ⟨-,hany⟩ := List.mem_filter.mp hi
  obtain ⟨st,hst,hdue⟩ := (Option.any_eq_true _ _).mp hany
  exact idle_of_pullDue (hm.tokens i st hst) hdue

theorem sameView_slid {l : List ℕ} (hidle : ∀ i ∈ l, p.stage h i = .idle) (n : ℕ) :
    SameView p ((p.choosing h l).sliding h n) := by
  refine ⟨?_,fun _ _ _ => rfl,fun _ => Iff.rfl⟩
  intro g j
  change (if g = h ∧ j ∈ l then Stage.chosen else p.stage g j).live = _
  split_ifs with hgj
  · rw [hgj.1,hidle j hgj.2]
    rfl
  · rfl

theorem tick_slides (hm : HostMatches c p h (s.host h)) (hp : Orderly c.plan p) (now : ℕ) :
    (∀ i st, (updateTokens (s.host h).tokenStates (needPull (s.host h) now) fun st =>
        { st with pullInflight := true })[i]? = some st →
      TokenMatches c h i ((p.choosing h (needPull (s.host h) now)).stage h i) st) ∧
    ∃ n, p.base h + n ≤ c.num h ∧
      slideWindow (updateTokens (s.host h).tokenStates (needPull (s.host h) now) fun st =>
        { st with pullInflight := true }) ((c.env h).numTokens - (s.host h).windowBase)
        (s.host h).windowBase = p.base h + n ∧
      ∀ k < n, (p.choosing h (needPull (s.host h) now)).stage h (p.base h + k) = .done := by
  have hl : (needPull (s.host h) now).Nodup := List.Nodup.filter _ List.nodup_range'
  have htokens : ∀ i st, (updateTokens (s.host h).tokenStates (needPull (s.host h) now) fun st =>
      { st with pullInflight := true })[i]? = some st →
      TokenMatches c h i ((p.choosing h (needPull (s.host h) now)).stage h i) st :=
    tokens_update (σ := .chosen) hm.tokens hl (by
      intro i hi st hmatch
      rw [needPull_idle hm hi] at hmatch
      constructor <;> simp [Stage.admitted,Stage.attentionDone,Stage.dispatchAcked,
        Stage.pullInflight,Stage.isDone,hmatch.admitted,hmatch.attentionQueued,
        hmatch.attentionDone,hmatch.dispatchEnqueued,hmatch.dispatchAcked,
        hmatch.combineDone]) fun j => by simp [Progress.choosing]
  obtain ⟨n,hfuel,heq,hdone⟩ := slideWindow_eq
    (updateTokens (s.host h).tokenStates (needPull (s.host h) now) fun st =>
      { st with pullInflight := true })
    (c.num h - p.base h) (p.base h)
  refine ⟨htokens,n,?_,?_,?_⟩
  · have hle := hp.base_le h
    have hle' : p.next h ≤ c.num h := hp.next_le h
    omega
  · rw [env_numTokens,hm.base]
    exact heq
  · intro k hk
    obtain ⟨st,hst,hst'⟩ := hdone k hk
    exact Stage.eq_done ((htokens _ st hst).combineDone ▸ hst')

/-- What a running host's tick does to the progress: choose the pulls, slide, and perhaps
decide on FINISH. -/
theorem tick_simulated (hf : Follows c s p) (hp : Orderly c.plan p) {now : ℕ} {ts : U64}
    (hidle : (s.host h).control.idle = true) (hrunning : (s.host h).running = true)
    {turn : Turn} (hturn : ¬p.allMarked → turn ≠ .exited) :
    Simulated c p (s.setHost h { controlTick (c.env h) (s.host h) now ts with turn := turn }) [] := by
  have hm := hf.hosts h
  have hcontrol := Control.items_of_idle (N := N) hidle
  let l := needPull (s.host h) now
  have hl : l.Nodup := List.Nodup.filter _ List.nodup_range'
  have hchosen : ∀ i ∈ l, p.stage h i = .idle := fun i hi => needPull_idle hm hi
  have hnum : ∀ i ∈ l, i < c.num h := fun i hi => hp.lt_num (by simp [hchosen i hi])
  obtain ⟨htokens₁,n,hbase,hwindow,hdone⟩ := tick_slides hm hp now
  let p₂ := (p.choosing h l).sliding h n
  have hmoves : Moves (Advance c.plan) p [] p₂ :=
    (choose_moves hl hchosen).trans (slide_moves (p := p.choosing h l) n hbase hdone)
  have hbase₂ : p₂.base h = p.base h + n := by simp [p₂,Progress.sliding,Progress.choosing]
  have hview : SameView p p₂ := sameView_slid hchosen n
  have hother : ∀ g, g ≠ h → HostMatches c p₂ g (s.host g) := fun g hg =>
    (hf.hosts g).congr (fun i => by simp [p₂,Progress.sliding,Progress.choosing,hg])
      (by simp [p₂,Progress.sliding,Progress.choosing,hg]) rfl rfl
  have hst₂ : Stocked Item.tag (items s + Pi.single h (bag .chosen l)) (c.stock p₂) :=
    stocked_choosing hf.stocked hl hchosen hnum
  have hrun : ¬p.allMarked → HostRunning { controlTick (c.env h) (s.host h) now ts with
      turn := turn } := by
    intro hall
    have hrun := hf.hostRunning hall h
    simp only [controlTick,hrunning,if_true]
    exact ⟨rfl,hrun.sendOpen,hrun.computeOpen,hrun.computing,hrun.sending,hrun.reading,hturn hall⟩
  have hlength : ∀ f, (updateTokens (s.host h).tokenStates l f).length = c.num h := fun f => by
    rw [updateTokens_length,hm.length]
  have hreceived : (s.host h).receivedCombines + (p.base h + n - (s.host h).windowBase) =
      p.base h + n := by
    rw [hm.received,hm.base]
    omega
  have hchosenTag : ∀ x ∈ (bag .chosen l : Multiset (Item N)), x.tag ≠ none := by
    intro x hx
    obtain ⟨i,-,rfl⟩ := mem_bag.mp hx
    simp [Item.tag]
  cases hfin : (!(s.host h).finishEnqueued && decide ((c.env h).numTokens ≤ p.base h + n)) with
  | false =>
    have hitems := items_setHost (s := s) (h := h) (A := 0) (B := bag .chosen l)
      (v := { controlTick (c.env h) (s.host h) now ts with turn := turn }) (by
        simp only [controlTick,hrunning,if_true,hwindow,hreceived,hfin,Bool.false_eq_true,if_false,
          Host.items,hcontrol]
        simp only [Control.items,Option.toList,bag_nil,l]
        abel)
    simp only [Pi.single_zero,add_zero] at hitems
    refine ⟨p₂,hmoves,hf.hostSide (h := h) hview rfl (fun g hg => by simp [hg]) ?_ ?_ ?_ hother
      (by simpa using hrun)⟩
    · rw [hitems]
      exact hst₂
    · rw [hitems]
      exact fun _ _ hx ht => untagged_single hchosenTag hx ht
    · simp only [setHost_host_self,controlTick,hrunning,if_true,hwindow,hreceived,hfin,Bool.or_false]
      exact ⟨hlength _,htokens₁,hbase₂.symm,hm.next,hbase₂.symm,hm.finishEnqueued⟩
  | true =>
    simp only [Bool.and_eq_true,Bool.not_eq_true',decide_eq_true_eq,env_numTokens] at hfin
    have hunfinished : p₂.fin h = .unfinished := by
      by_contra hne
      have := hm.finishEnqueued.mpr hne
      simp [hfin.1] at this
    have hfin' : (!(s.host h).finishEnqueued && decide ((c.env h).numTokens ≤ p.base h + n)) =
        true := by simp [hfin.1,hfin.2]
    have hitems := items_setHost (s := s) (h := h) (A := 0)
      (B := bag .chosen l + {.decided (c.finish h ts)})
      (v := { controlTick (c.env h) (s.host h) now ts with turn := turn }) (by
        simp only [controlTick,hrunning,if_true,hwindow,hreceived,hfin',
          Host.items,hcontrol]
        simp only [Control.items,Option.toList,bag_nil,bag_cons,l,Config.finish]
        abel)
    simp only [Pi.single_zero,add_zero] at hitems
    have hview' : SameView p (p₂.setFin h (.decided ts)) := by
      refine ⟨hview.live,hview.pending,?_⟩
      intro g
      have hmark := (SameView.setFin (p := p₂) (h := h) (f := .decided ts) (by simp)
        (by simp [hunfinished])).marked g
      exact hmark.trans (hview.marked g)
    refine ⟨p₂.setFin h (.decided ts),?_,hf.hostSide (h := h) hview' rfl
      (fun g hg => by simp [hg]) ?_ ?_ ?_ ?_ (by simpa using hrun)⟩
    · exact hmoves.silent (.finish h ts hunfinished (by rw [hbase₂]; exact hfin.2))
    · refine stocked_setFin hst₂ ?_
      rw [hitems,hunfinished,Pi.single_add]
      simp only [Closing.items,Pi.single_zero,add_zero]
      rw [add_assoc]
    · rw [hitems]
      refine fun _ _ hx ht => untagged_single ?_ hx ht
      intro x hx
      rcases Multiset.mem_add.mp hx with hx | hx
      · exact hchosenTag x hx
      · rw [Multiset.mem_singleton.mp hx]
        simp [Item.tag,noteTag,noteUp,Note.tag,Config.finish,hostFinishMsg,outMsg,MsgHeader.kind,
          MsgHeader.new]
    · simp only [setHost_host_self,controlTick,hrunning,if_true,hwindow,hreceived,hfin']
      exact ⟨hlength _,htokens₁,hbase₂.symm,hm.next,hbase₂.symm,by simp⟩
    · intro g hg
      exact (hother g hg).congr (fun _ => rfl) rfl rfl (by simp [hg])

theorem controlTick_turn (env : HostEnv) (v : Host) (now : ℕ) (ts : U64) :
    (controlTick env v now ts).turn = v.turn := by
  unfold controlTick
  split_ifs <;> rfl

theorem controlTick_stopped {env : HostEnv} {v : Host} {now : ℕ} {ts : U64}
    (hv : v.running = false) : controlTick env v now ts = v := by
  simp [controlTick,hv]

theorem tickStep_simulated (hf : Follows c s p) (hp : Orderly c.plan p) {now : ℕ} {ts : U64}
    {v : Host} (hs : tickStep (c.env h) (s.host h) now ts = some v) :
    Simulated c p (s.setHost h v) [] := by
  have hturning : ∀ t : Turn, (¬p.allMarked → t ≠ .exited) →
      Follows c (s.setHost h { s.host h with turn := t }) p := fun t ht =>
    hf.idle rfl ((hf.hosts h).of_same rfl rfl rfl rfl rfl) fun hall =>
      { hf.hostRunning hall h with turn := ht hall }
  have hticking : ∀ t : Turn, (s.host h).control.idle = true → (¬p.allMarked → t ≠ .exited) →
      Simulated c p
        (s.setHost h { controlTick (c.env h) (s.host h) now ts with turn := t }) [] := by
    intro t hidle ht
    cases hrunning : (s.host h).running with
    | true => exact tick_simulated hf hp hidle hrunning ht
    | false =>
      rw [controlTick_stopped hrunning]
      exact .still (hturning t ht)
  unfold tickStep at hs
  split_ifs at hs with hidle
  split at hs <;> obtain rfl := Option.some.inj hs
  · exact hticking _ hidle (by simp)
  · exact .still (hturning _ (by simp))
  · have := hticking (s.host h).turn hidle fun hall => (hf.hostRunning hall h).turn
    rwa [← controlTick_turn (c.env h) (s.host h) now ts] at this

theorem push_skip (hf : Follows c s p) {fin : Option Msg} {ts : U64}
    (hk : (s.host h).control = .pulling [] false fin) {v : Host} {ev : List (Event N)}
    (hs : controlPush h (c.env h) (s.host h) ts = some (v,ev)) :
    Simulated c p (s.setHost h v) ev := by
  simp only [controlPush,hk,Option.some.injEq,Prod.mk.injEq] at hs
  obtain ⟨rfl,rfl⟩ := hs
  refine .still (hf.idle ?_ ((hf.hosts h).of_same rfl rfl rfl rfl rfl)
    fun hall => { hf.hostRunning hall h with })
  simp [Host.items,Control.items,hk]

theorem controlPush_simulated (hf : Follows c s p) (hp : Orderly c.plan p) {ts : U64} {v : Host}
    {ev : List (Event N)} (hs : controlPush h (c.env h) (s.host h) ts = some (v,ev)) :
    Simulated c p (s.setHost h v) ev := by
  cases hk : (s.host h).control with
  | pulling pulls moved fin =>
    cases pulls with
    | cons i pulls => exact push_pull hf hp hk hs
    | nil =>
      cases moved with
      | true => exact push_admission hf hp hk hs
      | false => exact push_skip hf hk hs
  | admitted tasks fin =>
    cases tasks with
    | cons i tasks => exact push_task hf hp hk hs
    | nil =>
      cases fin with
      | some m => exact push_finish hf hp hk hs
      | none => simp [controlPush,hk] at hs

end INA2A

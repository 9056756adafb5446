import INA2A.Custody
import INA2A.SwitchSteps

/-! The relation between a state of the system and the progress of its tokens: everything
under way is where the progress puts it, the flags of the hosts and the slots of the switch
say how far it is, and as long as some FINISH is missing nothing has been shut down. -/
namespace INA2A

open ByteBuffers BitWords EventMachine Inventory

variable {N : ℕ}

namespace Stage

variable {H T : Type}

def admitted : Stage H T → Bool
  | raw => false
  | _ => true

def attentionDone : Stage H T → Bool
  | raw | task => false
  | _ => true

def dispatchAcked : Stage H T → Bool
  | raw | task | attended _ | dispatching _ | dispatched _ | fanning _ _ | acking _ => false
  | _ => true

def pullInflight : Stage H T → Bool
  | chosen | asking _ | asked _ | refusing _ | refused _ | answering _ | returning _ => true
  | _ => false

def isDone : Stage H T → Bool
  | done => true
  | _ => false

def live (σ : Stage H T) : Bool := !σ.early && !σ.late

end Stage

/-- A token's state at its host, for its stage. -/
structure TokenMatches (c : Config N) (h : Fin N) (i : ℕ) (σ : Stage (Fin N) U64)
    (st : TokenWindowState) : Prop where
  admitted : st.admitted = σ.admitted
  attentionQueued : st.attentionQueued = σ.admitted
  attentionDone : st.attentionDone = σ.attentionDone
  dispatchEnqueued : st.dispatchEnqueued = σ.attentionDone
  dispatchAcked : st.dispatchAcked = σ.dispatchAcked
  pullInflight : st.pullInflight = σ.pullInflight
  combineDone : st.combineDone = σ.isDone
  combinePayload : σ.isDone = true → st.combinePayload = (c.slot h i ∅).data

structure HostMatches (c : Config N) (p : Progress (Fin N) U64) (h : Fin N) (v : Host) : Prop where
  length : v.tokenStates.length = c.num h
  tokens : ∀ i st, v.tokenStates[i]? = some st → TokenMatches c h i (p.stage h i) st
  base : v.windowBase = p.base h
  next : v.nextToAdmit = p.next h
  received : v.receivedCombines = p.base h
  finishEnqueued : v.finishEnqueued = true ↔ p.fin h ≠ .unfinished

/-- The host has not been shut down and no loop of it has been left. -/
structure HostRunning (v : Host) : Prop where
  running : v.running = true
  sendOpen : v.sendQueue.closed = false
  computeOpen : v.computeQueue.closed = false
  computing : v.computing ≠ .exited
  sending : v.sending ≠ .exited
  reading : v.reading ≠ .exited
  turn : v.turn ≠ .exited

/-- A reader that is waiting for a message or handling one, short of shutting down. -/
def ReaderPos.serving : ReaderPos N → Bool
  | .clearing _ _ _ | .broadcasting _ _ | .closing _ | .nulling _ _ | .exited _ => false
  | _ => true

structure SwitchRunning (s : Switch N) : Prop where
  running : s.running = true
  conn : s.conn = s.hosts
  opened : s.opened = s.hosts
  readers : ∀ r, (s.reader r).serving = true
  main : s.main = .joining

/-- The experts the switch waits for. -/
def Progress.waiting (p : Progress (Fin N) U64) (h : Fin N) (i : ℕ) : Finset (Fin N) :=
  Finset.univ.filter fun e => (p.job h i e).pending = true

@[simp] theorem mem_waiting {p : Progress (Fin N) U64} {h e : Fin N} {i : ℕ} :
    e ∈ p.waiting h i ↔ (p.job h i e).pending = true := by
  simp [Progress.waiting]

/-- A reader that looks up the experts of a dispatch has found those it has passed. -/
def LookupsExact (q : ReaderPos N) : Prop :=
  ∀ m ids targets, q = .looking m ids targets → m.header.kind = some .dispatchToken ∧
    targets.map Fin.val ++ ids = decodeExpertIds m.header.expertBitmap N

structure Follows (c : Config N) (s : System N) (p : Progress (Fin N) U64) : Prop where
  stocked : Stocked Item.tag (items s) (c.stock p)
  untagged : ∀ h, ∀ x ∈ items s h, x.tag = none →
    p.allMarked ∧ ∃ rid ts, x = .down (broadcastFinishMsg rid h ts)
  hosts : ∀ h, HostMatches c p h (s.host h)
  slots : ∀ h i, i < c.num h → s.switch.combineQueue (c.key h i) =
    if (p.stage h i).live then some (c.slot h i (p.waiting h i)) else none
  foreign : ∀ k, (s.switch.combineQueue k).isSome = true → ∃ h i, i < c.num h ∧ k = c.key h i
  finished : ∀ h, h ∈ s.switch.finishedHosts ↔ p.fin h = .marked
  registered : Registered s.switch
  lookups : ∀ r, LookupsExact (s.switch.reader r)
  unfailed : ∀ r m g rest, s.switch.reader r ≠ .clearing m g rest
  hostRunning : ¬p.allMarked → ∀ h, HostRunning (s.host h)
  switchRunning : ¬p.allMarked → SwitchRunning s.switch

theorem Orderly.lt_num {S : Plan (Fin N)} {p : Progress (Fin N) U64} (hp : Orderly S p) {h : Fin N}
    {i : ℕ} (hne : p.stage h i ≠ .raw) : i < S.num h := by
  have hraw := hp.raw h i
  have hle := hp.next_le h
  by_contra hge
  exact hne (hraw.mpr (by omega))

theorem Orderly.lt_num_of_job {S : Plan (Fin N)} {p : Progress (Fin N) U64} (hp : Orderly S p)
    {o e : Fin N} {i : ℕ} (hne : p.job o i e ≠ .absent) : i < S.num o := by
  apply hp.lt_num
  intro hraw
  exact hne (hp.early o i e (by simp [hraw,Stage.early]))

theorem key_injective (c : Config N) {h g : Fin N} {i j : ℕ} (hi : i < c.num h) (hj : j < c.num g)
    (hk : c.key h i = c.key g j) : h = g ∧ i = j := by
  have horigin : BitVec.ofNat 32 h.val = BitVec.ofNat 32 g.val := congrArg CombineKey.originRank hk
  have hidx : BitVec.ofNat 64 i = BitVec.ofNat 64 j := congrArg CombineKey.globalIdx hk
  have horigin' := congrArg BitVec.toNat horigin
  have hidx' := congrArg BitVec.toNat hidx
  rw [rank_toNat c,rank_toNat c] at horigin'
  rw [index_toNat c hi,index_toNat c hj] at hidx'
  exact ⟨Fin.ext horigin',hidx'⟩

namespace Follows

variable {c : Config N} {s : System N} {p : Progress (Fin N) U64} {h : Fin N}

/-- Whatever is under way belongs to a token, to the work for one, or to a closing. -/
theorem cases_item (hf : Follows c s p) {x : Item N} (hx : x ∈ items s h) :
    (∃ i, x ∈ (p.stage h i).items c h i) ∨ (∃ o i, x ∈ (p.job o i h).items c o i h) ∨
      x ∈ (p.fin h).items c h ∨ p.allMarked ∧ ∃ rid ts, x = .down (broadcastFinishMsg rid h ts) := by
  cases ht : x.tag with
  | none => exact Or.inr (Or.inr (Or.inr (hf.untagged h x hx ht)))
  | some t =>
    have hmem := hf.stocked.mem hx ht
    cases t with
    | main i => exact Or.inl ⟨i,hmem⟩
    | job o i => exact Or.inr (Or.inl ⟨o,i,hmem⟩)
    | fin => exact Or.inr (Or.inr (Or.inl hmem))
    | junk => simp [Config.stock] at hmem

/-- Once all hosts are marked only the switch's FINISH is under way. -/
theorem item_of_allMarked (hf : Follows c s p) (hp : Orderly c.plan p) (hall : p.allMarked)
    {x : Item N} (hx : x ∈ items s h) : ∃ rid ts, x = .down (broadcastFinishMsg rid h ts) := by
  rcases hf.cases_item hx with ⟨i,hmem⟩ | ⟨o,i,hmem⟩ | hmem | ⟨-,hdown⟩
  · rcases (hp.quiescent hall h i).1 with ⟨hst,-⟩ | ⟨hst,-⟩ <;> simp [hst,Stage.items] at hmem
  · rcases (hp.quiescent hall o i).2 h with hj | hj <;> simp [hj,Job.items] at hmem
  · simp [hall h,Closing.items] at hmem
  · exact hdown

theorem of_chosen (hf : Follows c s p) {i : ℕ} (hx : Item.chosen i ∈ items s h) :
    p.stage h i = .chosen := by
  rcases hf.cases_item hx with ⟨j,hmem⟩ | ⟨o,j,hmem⟩ | hmem | ⟨-,rid,ts,hdown⟩
  · cases hst : p.stage h j <;> simp [hst,Stage.items] at hmem
    subst hmem
    exact hst
  · cases hj : p.job o j h <;> simp [hj,Job.items] at hmem
  · cases hfin : p.fin h <;> simp [hfin,Closing.items] at hmem
  · cases hdown

theorem of_task (hf : Follows c s p) {i : ℕ} (hx : Item.task i ∈ items s h) :
    p.stage h i = .task := by
  rcases hf.cases_item hx with ⟨j,hmem⟩ | ⟨o,j,hmem⟩ | hmem | ⟨-,rid,ts,hdown⟩
  · cases hst : p.stage h j <;> simp [hst,Stage.items] at hmem
    subst hmem
    exact hst
  · cases hj : p.job o j h <;> simp [hj,Job.items] at hmem
  · cases hfin : p.fin h <;> simp [hfin,Closing.items] at hmem
  · cases hdown

theorem of_hand (hf : Follows c s p) {m : Msg} (hx : Item.hand m ∈ items s h) :
    (∃ i ts, p.stage h i = .attended ts ∧ m = c.dispatch h i ts) ∨
      ∃ o i ts, p.job o i h = .made ts ∧ m = c.result o i h ts := by
  rcases hf.cases_item hx with ⟨j,hmem⟩ | ⟨o,j,hmem⟩ | hmem | ⟨-,rid,ts,hdown⟩
  · cases hst : p.stage h j <;> simp [hst,Stage.items] at hmem
    exact Or.inl ⟨j,_,hst,hmem⟩
  · cases hj : p.job o j h <;> simp [hj,Job.items] at hmem
    exact Or.inr ⟨o,j,_,hj,hmem⟩
  · cases hfin : p.fin h <;> simp [hfin,Closing.items] at hmem
  · cases hdown

theorem of_decided (hf : Follows c s p) {m : Msg} (hx : Item.decided m ∈ items s h) :
    ∃ ts, p.fin h = .decided ts ∧ m = c.finish h ts := by
  rcases hf.cases_item hx with ⟨j,hmem⟩ | ⟨o,j,hmem⟩ | hmem | ⟨-,rid,ts,hdown⟩
  · cases hst : p.stage h j <;> simp [hst,Stage.items] at hmem
  · cases hj : p.job o j h <;> simp [hj,Job.items] at hmem
  · cases hfin : p.fin h <;> simp [hfin,Closing.items] at hmem
    exact ⟨_,rfl,hmem⟩
  · cases hdown

theorem of_out (hf : Follows c s p) {m : Msg} (hx : Item.out m ∈ items s h) :
    (∃ i ts, p.stage h i = .dispatching ts ∧ m = c.dispatch h i ts) ∨
      (∃ i ts, p.stage h i = .asking ts ∧ m = c.pull h i ts) ∨
      (∃ o i ts, p.job o i h = .out ts ∧ m = c.result o i h ts) ∨
      ∃ ts, p.fin h = .out ts ∧ m = c.finish h ts := by
  rcases hf.cases_item hx with ⟨j,hmem⟩ | ⟨o,j,hmem⟩ | hmem | ⟨-,rid,ts,hdown⟩
  · cases hst : p.stage h j <;> simp [hst,Stage.items] at hmem
    · exact Or.inl ⟨j,_,hst,hmem⟩
    · exact Or.inr (Or.inl ⟨j,_,hst,hmem⟩)
  · cases hj : p.job o j h <;> simp [hj,Job.items] at hmem
    exact Or.inr (Or.inr (Or.inl ⟨o,j,_,hj,hmem⟩))
  · cases hfin : p.fin h <;> simp [hfin,Closing.items] at hmem
    exact Or.inr (Or.inr (Or.inr ⟨_,rfl,hmem⟩))
  · cases hdown

theorem of_wire (hf : Follows c s p) {m : Msg} (hx : Item.wire m ∈ items s h) :
    (∃ i ts, p.stage h i = .dispatched ts ∧ m = c.dispatch h i ts) ∨
      (∃ i ts, p.stage h i = .asked ts ∧ m = c.pull h i ts) ∨
      (∃ o i ts, p.job o i h = .wire ts ∧ m = c.result o i h ts) ∨
      ∃ ts, p.fin h = .wire ts ∧ m = c.finish h ts := by
  rcases hf.cases_item hx with ⟨j,hmem⟩ | ⟨o,j,hmem⟩ | hmem | ⟨-,rid,ts,hdown⟩
  · cases hst : p.stage h j <;> simp [hst,Stage.items] at hmem
    · exact Or.inl ⟨j,_,hst,hmem⟩
    · exact Or.inr (Or.inl ⟨j,_,hst,hmem⟩)
  · cases hj : p.job o j h <;> simp [hj,Job.items] at hmem
    exact Or.inr (Or.inr (Or.inl ⟨o,j,_,hj,hmem⟩))
  · cases hfin : p.fin h <;> simp [hfin,Closing.items] at hmem
    exact Or.inr (Or.inr (Or.inr ⟨_,rfl,hmem⟩))
  · cases hdown

theorem of_fan (hf : Follows c s p) {m : Msg} {rest : List (Fin N)}
    (hx : Item.fan m rest ∈ items s h) :
    ∃ i ts, p.stage h i = .fanning ts rest ∧ m = c.dispatch h i ts := by
  rcases hf.cases_item hx with ⟨j,hmem⟩ | ⟨o,j,hmem⟩ | hmem | ⟨-,rid,ts,hdown⟩
  · cases hst : p.stage h j <;> simp [hst,Stage.items] at hmem
    obtain ⟨rfl,rfl⟩ := hmem
    exact ⟨j,_,hst,rfl⟩
  · cases hj : p.job o j h <;> simp [hj,Job.items] at hmem
  · cases hfin : p.fin h <;> simp [hfin,Closing.items] at hmem
  · cases hdown

theorem of_reply (hf : Follows c s p) {m : Msg} (hx : Item.reply m ∈ items s h) :
    (∃ i ts, p.stage h i = .refusing ts ∧ m = c.notReady h i ts) ∨
      ∃ i ts, p.stage h i = .answering ts ∧ m = c.combined h i ts := by
  rcases hf.cases_item hx with ⟨j,hmem⟩ | ⟨o,j,hmem⟩ | hmem | ⟨-,rid,ts,hdown⟩
  · cases hst : p.stage h j <;> simp [hst,Stage.items] at hmem
    · exact Or.inl ⟨j,_,hst,hmem⟩
    · exact Or.inr ⟨j,_,hst,hmem⟩
  · cases hj : p.job o j h <;> simp [hj,Job.items] at hmem
  · cases hfin : p.fin h <;> simp [hfin,Closing.items] at hmem
  · cases hdown

theorem of_down (hf : Follows c s p) {m : Msg} (hx : Item.down m ∈ items s h) :
    (∃ i ts, p.stage h i = .acking ts ∧ m = c.ack h i ts) ∨
      (∃ i ts, p.stage h i = .refused ts ∧ m = c.notReady h i ts) ∨
      (∃ i ts, p.stage h i = .returning ts ∧ m = c.combined h i ts) ∨
      (∃ o i ts, p.job o i h = .input ts ∧ m = c.input o i h ts) ∨
      p.allMarked ∧ ∃ rid ts, m = broadcastFinishMsg rid h ts := by
  rcases hf.cases_item hx with ⟨j,hmem⟩ | ⟨o,j,hmem⟩ | hmem | ⟨hall,rid,ts,hdown⟩
  · cases hst : p.stage h j <;> simp [hst,Stage.items] at hmem
    · exact Or.inl ⟨j,_,hst,hmem⟩
    · exact Or.inr (Or.inl ⟨j,_,hst,hmem⟩)
    · exact Or.inr (Or.inr (Or.inl ⟨j,_,hst,hmem⟩))
  · cases hj : p.job o j h <;> simp [hj,Job.items] at hmem
    exact Or.inr (Or.inr (Or.inr (Or.inl ⟨o,j,_,hj,hmem⟩)))
  · cases hfin : p.fin h <;> simp [hfin,Closing.items] at hmem
  · cases hdown
    exact Or.inr (Or.inr (Or.inr (Or.inr ⟨hall,rid,ts,rfl⟩)))

theorem of_work (hf : Follows c s p) {m : Msg} (hx : Item.work m ∈ items s h) :
    ∃ o i ts, p.job o i h = .work ts ∧ m = c.input o i h ts := by
  rcases hf.cases_item hx with ⟨j,hmem⟩ | ⟨o,j,hmem⟩ | hmem | ⟨-,rid,ts,hdown⟩
  · cases hst : p.stage h j <;> simp [hst,Stage.items] at hmem
  · cases hj : p.job o j h <;> simp [hj,Job.items] at hmem
    exact ⟨o,j,_,hj,hmem⟩
  · cases hfin : p.fin h <;> simp [hfin,Closing.items] at hmem
  · cases hdown

end Follows

end INA2A

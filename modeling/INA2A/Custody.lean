import INA2A.Tokens
import INA2A.Lib.Inventory

/-! Where the messages of the system are.  Every queue, hand and channel of a host's
connection is counted as a place; the stock says what should be there for the progress the
tokens have made, down to the bytes. -/
namespace INA2A

open ByteBuffers BitWords Inventory

variable {N : ℕ}

inductive Item (N : ℕ)
  | chosen (i : ℕ)
  | task (i : ℕ)
  | hand (m : Msg)
  | decided (m : Msg)
  | out (m : Msg)
  | wire (m : Msg)
  | fan (m : Msg) (rest : List (Fin N))
  | reply (m : Msg)
  | down (m : Msg)
  | work (m : Msg)

/-- The token, the work for a token at an expert, or the closing that an item belongs to. -/
inductive Tag (N : ℕ)
  | main (i : ℕ)
  | job (o : Fin N) (i : ℕ)
  | fin
  | junk
  deriving DecidableEq

def originOf (m : Msg) : Option (Fin N) :=
  if h : m.header.originRank.toNat < N then some ⟨m.header.originRank.toNat,h⟩ else none

/-- What a message from a host to the switch is about. -/
def noteUp (m : Msg) : Option (Note (Fin N)) :=
  match m.header.kind with
  | some .dispatchToken => some (.dispatch m.header.globalIdx.toNat)
  | some .combinePullReq => some (.pull m.header.globalIdx.toNat)
  | some .expertResult => (originOf m).map fun o => .result o m.header.globalIdx.toNat
  | some .finish => some .finish
  | _ => none

/-- What a message from the switch to a host is about. -/
def noteDown (m : Msg) : Option (Note (Fin N)) :=
  match m.header.kind with
  | some .ack => some (.ack m.header.globalIdx.toNat)
  | some .notReady => some (.notReady m.header.globalIdx.toNat)
  | some .combineResult => some (.combined m.header.globalIdx.toNat)
  | some .expertInput => (originOf m).map fun o => .input o m.header.globalIdx.toNat
  | some .finish => some .stop
  | _ => none

/-- The switch's own FINISH belongs to no token and to no host's closing. -/
def Note.tag : Note (Fin N) → Option (Tag N)
  | .dispatch i | .ack i | .pull i | .notReady i | .combined i => some (.main i)
  | .input o i | .result o i => some (.job o i)
  | .finish => some .fin
  | .stop => none

def noteTag : Option (Note (Fin N)) → Option (Tag N)
  | none => some .junk
  | some n => n.tag

def Item.tag : Item N → Option (Tag N)
  | .chosen i | .task i => some (.main i)
  | .hand m | .decided m | .out m | .wire m | .fan m _ => noteTag (noteUp m)
  | .reply m | .down m | .work m => noteTag (noteDown m)

def Stage.items (c : Config N) (h : Fin N) (i : ℕ) : Stage (Fin N) U64 → Multiset (Item N)
  | .raw | .idle | .done => 0
  | .task => {.task i}
  | .attended ts => {.hand (c.dispatch h i ts)}
  | .dispatching ts => {.out (c.dispatch h i ts)}
  | .dispatched ts => {.wire (c.dispatch h i ts)}
  | .fanning ts rest => {.fan (c.dispatch h i ts) rest}
  | .acking ts => {.down (c.ack h i ts)}
  | .chosen => {.chosen i}
  | .asking ts => {.out (c.pull h i ts)}
  | .asked ts => {.wire (c.pull h i ts)}
  | .refusing ts => {.reply (c.notReady h i ts)}
  | .refused ts => {.down (c.notReady h i ts)}
  | .answering ts => {.reply (c.combined h i ts)}
  | .returning ts => {.down (c.combined h i ts)}

def Job.items (c : Config N) (o : Fin N) (i : ℕ) (e : Fin N) : Job U64 → Multiset (Item N)
  | .absent | .target | .accepted => 0
  | .input ts => {.down (c.input o i e ts)}
  | .work ts => {.work (c.input o i e ts)}
  | .made ts => {.hand (c.result o i e ts)}
  | .out ts => {.out (c.result o i e ts)}
  | .wire ts => {.wire (c.result o i e ts)}

def Closing.items (c : Config N) (h : Fin N) : Closing U64 → Multiset (Item N)
  | .unfinished | .marked => 0
  | .decided ts => {.decided (c.finish h ts)}
  | .out ts => {.out (c.finish h ts)}
  | .wire ts => {.wire (c.finish h ts)}

def Config.stock (c : Config N) (p : Progress (Fin N) U64) (h : Fin N) : Tag N → Multiset (Item N)
  | .main i => (p.stage h i).items c h i
  | .job o i => (p.job o i h).items c o i h
  | .fin => (p.fin h).items c h
  | .junk => 0

theorem index_toNat (c : Config N) {h : Fin N} {i : ℕ} (hi : i < c.num h) :
    (BitVec.ofNat 64 i).toNat = i := by
  have := num_lt c h
  rw [BitVec.toNat_ofNat]
  exact Nat.mod_eq_of_lt (by omega)

theorem rank_toNat (c : Config N) (h : Fin N) : (BitVec.ofNat 32 h.val).toNat = h := by
  have := c.hosts_le
  rw [BitVec.toNat_ofNat]
  exact Nat.mod_eq_of_lt (by omega)

theorem originOf_eq (c : Config N) {m : Msg} {o : Fin N}
    (hm : m.header.originRank = BitVec.ofNat 32 o.val) : originOf m = some o := by
  have ho := rank_toNat c o
  unfold originOf
  rw [hm,ho]
  simp

section notes

variable (c : Config N) {h : Fin N} {i : ℕ} (hi : i < c.num h) (ts : U64)
include hi

theorem noteUp_dispatch : noteUp (N:=N) (c.dispatch h i ts) = some (.dispatch i) := by
  change some (Note.dispatch (BitVec.ofNat 64 i).toNat) = _
  rw [index_toNat c hi]

theorem noteUp_pull : noteUp (N:=N) (c.pull h i ts) = some (.pull i) := by
  change some (Note.pull (BitVec.ofNat 64 i).toNat) = _
  rw [index_toNat c hi]

theorem noteUp_result (e : Fin N) : noteUp (c.result h i e ts) = some (.result h i) := by
  change (originOf (c.result h i e ts)).map
    (fun o => Note.result o (BitVec.ofNat 64 i).toNat) = _
  rw [index_toNat c hi,originOf_eq c (o:=h) rfl]
  rfl

theorem noteDown_ack : noteDown (N:=N) (c.ack h i ts) = some (.ack i) := by
  change some (Note.ack (BitVec.ofNat 64 i).toNat) = _
  rw [index_toNat c hi]

theorem noteDown_notReady : noteDown (N:=N) (c.notReady h i ts) = some (.notReady i) := by
  change some (Note.notReady (BitVec.ofNat 64 i).toNat) = _
  rw [index_toNat c hi]

theorem noteDown_combined : noteDown (N:=N) (c.combined h i ts) = some (.combined i) := by
  change some (Note.combined (BitVec.ofNat 64 i).toNat) = _
  rw [index_toNat c hi]

theorem noteDown_input (e : Fin N) : noteDown (c.input h i e ts) = some (.input h i) := by
  change (originOf (c.input h i e ts)).map
    (fun o => Note.input o (BitVec.ofNat 64 i).toNat) = _
  rw [index_toNat c hi,originOf_eq c (o:=h) rfl]
  rfl

theorem Stage.items_tag (σ : Stage (Fin N) U64) :
    ∀ x ∈ σ.items c h i, x.tag = some (.main i) := by
  intro x hx
  cases σ <;> simp only [Stage.items,Multiset.mem_singleton,Multiset.notMem_zero] at hx <;>
    subst hx <;> simp [Item.tag,noteTag,Note.tag,noteUp_dispatch c hi,noteUp_pull c hi,
      noteDown_ack c hi,noteDown_notReady c hi,noteDown_combined c hi]

theorem Job.items_tag (e : Fin N) (τ : Job U64) :
    ∀ x ∈ τ.items c h i e, x.tag = some (.job h i) := by
  intro x hx
  cases τ <;> simp only [Job.items,Multiset.mem_singleton,Multiset.notMem_zero] at hx <;>
    subst hx <;> simp [Item.tag,noteTag,Note.tag,noteUp_result c hi,noteDown_input c hi]

end notes

theorem Closing.items_tag (c : Config N) (h : Fin N) (f : Closing U64) :
    ∀ x ∈ f.items c h, x.tag = some .fin := by
  intro x hx
  cases f <;> simp only [Closing.items,Multiset.mem_singleton,Multiset.notMem_zero] at hx <;>
    subst hx <;> rfl

def taskItem : ComputeTask → Item N
  | .localAttention i => .task i
  | .expertMlp m => .work m

def Control.items : Control → Multiset (Item N)
  | .pulling pulls _ fin => bag .chosen pulls + bag .decided fin.toList
  | .admitted tasks fin => bag .task tasks + bag .decided fin.toList

def Computing.items : Computing → Multiset (Item N)
  | .task t => {taskItem t}
  | .pushing m => {.hand m}
  | _ => 0

def Sending.items : Sending → Multiset (Item N)
  | .writing m => {.out m}
  | _ => 0

def Reading.items : Reading → Multiset (Item N)
  | .got m => {.down m}
  | _ => 0

def Host.items (h : Host) : Multiset (Item N) :=
  h.control.items + h.computing.items + h.sending.items + h.reading.items +
    bag .out h.sendQueue.items + bag taskItem h.computeQueue.items

def ReaderPos.items : ReaderPos N → Multiset (Item N)
  | .got m => {.wire m}
  | .looking m _ _ => {.wire m}
  | .dispatching m rest => {.fan m rest}
  | .replying response => {.reply response}
  | _ => 0

/-- All that is under way at host `h`, on its connection, or in the hands of its reader. -/
def items (s : System N) (h : Fin N) : Multiset (Item N) :=
  (s.host h).items + bag .wire (s.toSwitch h) + (s.switch.reader h).items + bag .down (s.toHost h)

section exchange

variable {c : Config N} {p : Progress (Fin N) U64} {I I' : Fin N → Multiset (Item N)}

theorem stocked_setStage (hst : Stocked Item.tag I (c.stock p)) {h : Fin N} {i : ℕ}
    {σ : Stage (Fin N) U64} (hi : i < c.num h)
    (hI : I' + Pi.single h ((p.stage h i).items c h i) = I + Pi.single h (σ.items c h i)) :
    Stocked Item.tag I' (c.stock (p.setStage h i σ)) := by
  refine hst.exchange (t := .main i) hI (Stage.items_tag c hi _) (Stage.items_tag c hi _) rfl
    (by simp [Config.stock]) ?_
  intro g t hne
  cases t with
  | main j =>
    have hgj : ¬(g = h ∧ j = i) := by
      rintro ⟨rfl,rfl⟩
      exact hne rfl
    simp [Config.stock,hgj]
  | _ => rfl

theorem stocked_setJob (hst : Stocked Item.tag I (c.stock p)) {o e : Fin N} {i : ℕ} {τ : Job U64}
    (hi : i < c.num o)
    (hI : I' + Pi.single e ((p.job o i e).items c o i e) = I + Pi.single e (τ.items c o i e)) :
    Stocked Item.tag I' (c.stock (p.setJob o i e τ)) := by
  refine hst.exchange (t := .job o i) hI (Job.items_tag c hi e _) (Job.items_tag c hi e _) rfl
    (by simp [Config.stock]) ?_
  intro g t hne
  cases t with
  | job o' j =>
    have hgj : ¬(o' = o ∧ j = i ∧ g = e) := by
      rintro ⟨rfl,rfl,rfl⟩
      exact hne rfl
    simp [Config.stock,hgj]
  | _ => rfl

theorem stocked_setFin (hst : Stocked Item.tag I (c.stock p)) {h : Fin N} {f : Closing U64}
    (hI : I' + Pi.single h ((p.fin h).items c h) = I + Pi.single h (f.items c h)) :
    Stocked Item.tag I' (c.stock (p.setFin h f)) := by
  refine hst.exchange (t := .fin) hI (Closing.items_tag c h _) (Closing.items_tag c h _) rfl
    (by simp [Config.stock]) ?_
  intro g t hne
  cases t with
  | fin =>
    have hgh : g ≠ h := by
      rintro rfl
      exact hne rfl
    simp [Config.stock,hgh]
  | _ => rfl

theorem stocked_setTargets (hst : Stocked Item.tag I (c.stock p)) {o : Fin N} {i : ℕ}
    {targets : List (Fin N)} (habs : ∀ e, p.job o i e = .absent) :
    Stocked Item.tag I (c.stock (p.setTargets o i targets)) := by
  intro g t
  rw [hst g t]
  cases t with
  | job o' j =>
    by_cases hgj : o' = o ∧ j = i ∧ g ∈ targets
    · obtain ⟨rfl,rfl,hmem⟩ := hgj
      simp [Config.stock,hmem,habs,Job.items]
    · simp [Config.stock,hgj]
  | _ => rfl

end exchange

/-- What an event of the system shows of the protocol. -/
def Event.sign : Event N → Option (Sign (Fin N))
  | .enqueued h m => (noteUp m).map (.enq h)
  | .toSwitch h m => (noteUp m).map (.up h)
  | .toHost g m => (noteDown m).map (.down g)
  | .dispatched k =>
    if h : k.originRank.toNat < N then some (.returned ⟨k.originRank.toNat,h⟩ k.globalIdx.toNat)
    else none
  | .broadcast => some .broadcast
  | .rejected _ | .dropped => some .fault
  | _ => none

theorem sign_dispatched (c : Config N) {h : Fin N} {i : ℕ} (hi : i < c.num h) :
    Event.sign (.dispatched (c.key h i) : Event N) = some (.returned h i) := by
  have horigin : (c.key h i).originRank.toNat = h := rank_toNat c h
  have hidx : (c.key h i).globalIdx.toNat = i := index_toNat c hi
  simp only [Event.sign,horigin,hidx,h.isLt,dif_pos]

def Config.plan (c : Config N) : Plan (Fin N) where
  num := c.num
  window h := (c.args h).windowSize.toNat
  sel := c.experts

end INA2A

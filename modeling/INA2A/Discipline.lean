import INA2A.Traffic
import INA2A.Course

/-! The protocol about each token: what its host and the switch say to each other about it
comes in the order of its life, with one pull at a time. -/
namespace INA2A

open ByteBuffers BitWords EventMachine Inventory

variable {N : ℕ} {c : Config N} {s s' : System N} {p : Progress (Fin N) U64} {h : Fin N}
variable {hist : List (Event N)} {t : ℕ}

/-- The kind of a message on the connection of `g`, if it is about token `t` of host `h` and
`g` is that host.  A FINISH is about no token. -/
def exchangedMsg (c : Config N) (h : Fin N) (t : ℕ) (g : Fin N) (m : Msg) : Option MsgType :=
  if g = h ∧ makeKey m.header = c.key h t ∧ m.header.kind ≠ some .finish then m.header.kind
  else none

def Event.exchanged (c : Config N) (h : Fin N) (t : ℕ) : Event N → Option MsgType
  | .toSwitch g m | .toHost g m => exchangedMsg c h t g m
  | _ => none

/-- A host that is an expert for its own token also exchanges the work for it. -/
def MsgType.isWork : MsgType → Bool
  | .expertInput | .expertResult => true
  | _ => false

/-- The messages about a token between its origin host and the switch, other than the work a
host does for its own token. -/
def tokenExchange (c : Config N) (h : Fin N) (t : ℕ) (hist : List (Event N)) : List MsgType :=
  (hist.filterMap (Event.exchanged c h t)).filter fun k => !k.isWork

def Talk.kind : Talk → MsgType
  | dispatch => .dispatchToken
  | ack => .ack
  | pull => .combinePullReq
  | notReady => .notReady
  | combined => .combineResult

theorem key_eq_iff (c : Config N) {o h : Fin N} {i t : ℕ} (hi : i < c.num o) (ht : t < c.num h) :
    c.key o i = c.key h t ↔ o = h ∧ i = t := by
  constructor
  · exact key_injective c hi ht
  · rintro ⟨rfl,rfl⟩
    rfl

theorem exchanged_token {m : Msg} {k : MsgType} {o g : Fin N} {i : ℕ} (hi : i < c.num o)
    (ht : t < c.num h) (hkey : makeKey m.header = c.key o i) (hkind : m.header.kind = some k)
    (hk : k ≠ .finish) :
    exchangedMsg c h t g m = if g = h ∧ o = h ∧ i = t then some k else none := by
  simp only [exchangedMsg,hkey,hkind,key_eq_iff c hi ht,ne_eq,Option.some.injEq,hk,
    not_false_eq_true,and_true]

theorem exchanged_finish {m : Msg} {g : Fin N} (hkind : m.header.kind = some .finish) :
    exchangedMsg c h t g m = none := by
  simp [exchangedMsg,hkind]

theorem ack_key (c : Config N) (h : Fin N) (i : ℕ) (ts : U64) :
    makeKey (c.ack h i ts).header = c.key h i := makeKey_congr rfl rfl rfl rfl rfl
theorem notReady_key (c : Config N) (h : Fin N) (i : ℕ) (ts : U64) :
    makeKey (c.notReady h i ts).header = c.key h i := makeKey_congr rfl rfl rfl rfl rfl
theorem combined_key (c : Config N) (h : Fin N) (i : ℕ) (ts : U64) :
    makeKey (c.combined h i ts).header = c.key h i := makeKey_congr rfl rfl rfl rfl rfl
theorem input_key (c : Config N) (h : Fin N) (i : ℕ) (e : Fin N) (ts : U64) :
    makeKey (c.input h i e ts).header = c.key h i := expertInput_key (c.dispatch h i 0) e ts

theorem Event.exchanged_eq {e : Event N} (he : e.Genuine c) (ht : t < c.num h) :
    (e.exchanged c h t).filter (fun k => !k.isWork) =
      (e.sign.bind (Sign.talk h t)).map Talk.kind := by
  have hcond : ∀ {g : Fin N} {i : ℕ}, (g = h ∧ g = h ∧ i = t) = (g = h ∧ i = t) := by
    intro g i
    rw [eq_iff_iff]
    tauto
  cases e with
  | toSwitch g m =>
    rcases he with ⟨i,ts,hi,rfl⟩ | ⟨i,ts,hi,rfl⟩ | ⟨o,i,ts,hi,rfl⟩ | ⟨ts,rfl⟩
    · simp only [Event.exchanged,exchanged_token hi ht (dispatch_key c g i ts) rfl (by simp),
        Event.sign,noteUp_dispatch c hi,hcond]
      split_ifs with hgi <;> simp [Sign.talk,hgi,MsgType.isWork,Talk.kind]
    · simp only [Event.exchanged,exchanged_token hi ht (pull_key c g i ts) rfl (by simp),
        Event.sign,noteUp_pull c hi,hcond]
      split_ifs with hgi <;> simp [Sign.talk,hgi,MsgType.isWork,Talk.kind]
    · simp only [Event.exchanged,exchanged_token hi ht (result_key c o i g ts) rfl (by simp),
        Event.sign,noteUp_result c hi]
      split_ifs <;> simp [Sign.talk,MsgType.isWork]
    · simp only [Event.exchanged,exchanged_finish (show (c.finish g ts).header.kind = _ from rfl)]
      rfl
  | toHost g m =>
    rcases he with ⟨i,ts,hi,rfl⟩ | ⟨i,ts,hi,rfl⟩ | ⟨i,ts,hi,rfl⟩ | ⟨o,i,ts,hi,rfl⟩ | ⟨rid,ts,rfl⟩
    · simp only [Event.exchanged,exchanged_token hi ht (ack_key c g i ts) rfl (by simp),
        Event.sign,noteDown_ack c hi,hcond]
      split_ifs with hgi <;> simp [Sign.talk,hgi,MsgType.isWork,Talk.kind]
    · simp only [Event.exchanged,exchanged_token hi ht (notReady_key c g i ts) rfl (by simp),
        Event.sign,noteDown_notReady c hi,hcond]
      split_ifs with hgi <;> simp [Sign.talk,hgi,MsgType.isWork,Talk.kind]
    · simp only [Event.exchanged,exchanged_token hi ht (combined_key c g i ts) rfl (by simp),
        Event.sign,noteDown_combined c hi,hcond]
      split_ifs with hgi <;> simp [Sign.talk,hgi,MsgType.isWork,Talk.kind]
    · simp only [Event.exchanged,exchanged_token hi ht (input_key c o i g ts) rfl (by simp),
        Event.sign,noteDown_input c hi]
      split_ifs <;> simp [Sign.talk,MsgType.isWork]
    · simp only [Event.exchanged,exchanged_finish
        (show (broadcastFinishMsg rid g ts).header.kind = _ from rfl)]
      rfl
  | dispatched k =>
    simp only [Event.exchanged,Event.sign]
    split_ifs <;> rfl
  | enqueued g m =>
    simp only [Event.exchanged,Event.sign]
    cases noteUp (N := N) m <;> rfl
  | _ => rfl

theorem tokenExchange_eq (hgen : ∀ e ∈ hist, e.Genuine c) (ht : t < c.num h) :
    tokenExchange c h t hist =
      ((hist.filterMap Event.sign).filterMap (Sign.talk h t)).map Talk.kind := by
  rw [tokenExchange,List.filter_filterMap,List.filterMap_filterMap,List.map_filterMap]
  exact List.filterMap_congr fun e he => Event.exchanged_eq (hgen e he) ht

/-- A pull of token `t`, or a reply to one: chosen by the control tick, queued, being written,
on the connection, or in the hands of the switch or of the host. -/
def Item.isPull (c : Config N) (h : Fin N) (t : ℕ) : Item N → Bool
  | .chosen i => i = t
  | .out m | .wire m => m.header.kind = some .combinePullReq ∧ makeKey m.header = c.key h t
  | .reply m | .down m =>
    (m.header.kind = some .notReady ∨ m.header.kind = some .combineResult) ∧
      makeKey m.header = c.key h t
  | _ => false

def pullsUnderWay (c : Config N) (s : System N) (h : Fin N) (t : ℕ) : ℕ :=
  (items s h).countP fun x => x.isPull c h t = true

theorem isPull_tag (ht : t < c.num h) {x : Item N} (hx : x.isPull c h t = true) :
    x.tag = some (.main t) := by
  have hidx : ∀ {m : Msg}, makeKey m.header = c.key h t → m.header.globalIdx.toNat = t := by
    intro m hm
    have : m.header.globalIdx = BitVec.ofNat 64 t := congrArg CombineKey.globalIdx hm
    rw [this,index_toNat c ht]
  cases x with
  | chosen i =>
    simp only [Item.isPull,decide_eq_true_eq] at hx
    rw [hx]
    rfl
  | out m =>
    simp only [Item.isPull,decide_eq_true_eq] at hx
    simp [Item.tag,noteTag,noteUp,hx.1,hidx hx.2,Note.tag]
  | wire m =>
    simp only [Item.isPull,decide_eq_true_eq] at hx
    simp [Item.tag,noteTag,noteUp,hx.1,hidx hx.2,Note.tag]
  | reply m =>
    simp only [Item.isPull,decide_eq_true_eq] at hx
    rcases hx with ⟨hk | hk,hkey⟩ <;> simp [Item.tag,noteTag,noteDown,hk,hidx hkey,Note.tag]
  | down m =>
    simp only [Item.isPull,decide_eq_true_eq] at hx
    rcases hx with ⟨hk | hk,hkey⟩ <;> simp [Item.tag,noteTag,noteDown,hk,hidx hkey,Note.tag]
  | _ => cases hx

theorem countP_stage (c : Config N) (h : Fin N) (t : ℕ) (σ : Stage (Fin N) U64) :
    (σ.items c h t).countP (fun x => x.isPull c h t = true) = if σ.pullInflight then 1 else 0 := by
  have hone : ∀ {x : Item N}, x.isPull c h t = true →
      ({x} : Multiset (Item N)).countP (fun x => x.isPull c h t = true) = 1 := fun hx => by
    rw [Multiset.countP_eq_card_filter,Multiset.filter_singleton,if_pos hx]
    rfl
  have hzero : ∀ {x : Item N}, x.isPull c h t = false →
      ({x} : Multiset (Item N)).countP (fun x => x.isPull c h t = true) = 0 := fun hx => by
    rw [Multiset.countP_eq_card_filter,Multiset.filter_singleton,if_neg (by simp [hx])]
    rfl
  have hpull : ∀ {m : Msg}, m.header.kind = some .combinePullReq → makeKey m.header = c.key h t →
      (Item.out m : Item N).isPull c h t = true ∧ (Item.wire m : Item N).isPull c h t = true :=
    fun hk hkey => by simp [Item.isPull,hk,hkey]
  have hreply : ∀ {m : Msg}, m.header.kind = some .notReady ∨ m.header.kind = some .combineResult →
      makeKey m.header = c.key h t →
      (Item.reply m : Item N).isPull c h t = true ∧ (Item.down m : Item N).isPull c h t = true :=
    fun hk hkey => by simp [Item.isPull,hk,hkey]
  have hother : ∀ {m : Msg}, m.header.kind = some .dispatchToken ∨ m.header.kind = some .ack →
      (Item.out m : Item N).isPull c h t = false ∧ (Item.wire m : Item N).isPull c h t = false ∧
      (Item.down m : Item N).isPull c h t = false := fun hk => by
    rcases hk with hk | hk <;> simp [Item.isPull,hk]
  cases σ
  case raw | idle | done => rfl
  case task | attended | fanning => exact hzero rfl
  case dispatching ts => exact hzero (hother (Or.inl rfl)).1
  case dispatched ts => exact hzero (hother (Or.inl rfl)).2.1
  case acking ts => exact hzero (hother (m := c.ack h t ts) (Or.inr rfl)).2.2
  case chosen => exact hone (by simp [Item.isPull])
  case asking ts => exact hone (hpull rfl (pull_key c h t ts)).1
  case asked ts => exact hone (hpull rfl (pull_key c h t ts)).2
  case refusing ts => exact hone (hreply (Or.inl rfl) (notReady_key c h t ts)).1
  case refused ts => exact hone (hreply (Or.inl rfl) (notReady_key c h t ts)).2
  case answering ts => exact hone (hreply (Or.inr rfl) (combined_key c h t ts)).1
  case returning ts => exact hone (hreply (Or.inr rfl) (combined_key c h t ts)).2

theorem pullsUnderWay_eq (hf : Follows c s p) (ht : t < c.num h) :
    pullsUnderWay c s h t = if (p.stage h t).pullInflight then 1 else 0 := by
  have hfilter : ((items s h).filter fun x => x.tag = some (.main t)).filter
      (fun x => x.isPull c h t = true) = (items s h).filter fun x => x.isPull c h t = true := by
    rw [Multiset.filter_filter]
    refine Multiset.filter_congr fun x _ => ?_
    exact ⟨fun hx => hx.1,fun hx => ⟨hx,isPull_tag ht hx⟩⟩
  rw [pullsUnderWay,Multiset.countP_eq_card_filter,← hfilter,hf.stocked,
    ← Multiset.countP_eq_card_filter]
  exact countP_stage c h t (p.stage h t)

theorem count_dispatch (n : ℕ) :
    ((conversation n).map Talk.kind).count .dispatchToken = 1 := by
  have hrefusals : ((refusals n).map Talk.kind).count .dispatchToken = 0 := by
    induction n with
    | zero => rfl
    | succ n ih => rw [refusals,List.map_append,List.count_append,ih]; rfl
  simp only [conversation,List.map_cons,List.map_append,List.count_cons,List.count_append,hrefusals]
  rfl

/-- What may be relied on about token `t` of host `h`, and about the end of the host's own
traffic. -/
structure Disciplined (c : Config N) (s : System N) (hist : List (Event N)) (h : Fin N) (t : ℕ) :
    Prop where
  order : ∃ n, tokenExchange c h t hist <+: (conversation n).map Talk.kind
  dispatchedOnce : (tokenExchange c h t hist).count .dispatchToken ≤ 1
  complete : ∀ st, (s.host h).tokenStates[t]? = some st → st.combineDone = true →
    ∃ n, tokenExchange c h t hist = (conversation n).map Talk.kind
  onePull : pullsUnderWay c s h t ≤ 1
  pullInflight : ∀ st, (s.host h).tokenStates[t]? = some st →
    (st.pullInflight = true ↔ pullsUnderWay c s h t = 1)
  slotExists : .rejected .slotDoesNotExist ∉ hist
  noOverwrite : .rejected .overwritingSlot ∉ hist
  lastFinish : hist.Pairwise fun a b => ∀ m m', a = .toSwitch h m → m.header.kind = some .finish →
    b = .toSwitch h m' → m'.header.kind ≠ some .dispatchToken ∧
      m'.header.kind ≠ some .combinePullReq

theorem rejected_notMem (hr : Run (systemMachine c) s hist) (f : Fault) : .rejected f ∉ hist := by
  intro hmem
  obtain ⟨p,-,hc⟩ := exists_course hr
  exact course_fault hc (List.mem_filterMap.mpr ⟨_,hmem,rfl⟩)

theorem run_lastFinish (hr : Run (systemMachine c) s hist) (h : Fin N) :
    hist.Pairwise fun a b => ∀ m m', a = .toSwitch h m → m.header.kind = some .finish →
      b = .toSwitch h m' → m'.header.kind ≠ some .dispatchToken ∧
        m'.header.kind ≠ some .combinePullReq := by
  obtain ⟨p,-,hc⟩ := exists_course hr
  have hpair := List.pairwise_filterMap.mp (course_finish hc)
  refine hpair.imp ?_
  rintro a b hab m m' rfl hkind rfl
  have hfin : Event.sign (.toSwitch h m) = some (.up h .finish) := by
    simp [Event.sign,noteUp,hkind]
  constructor
  · intro hk
    exact (hab _ hfin (.up h (.dispatch m'.header.globalIdx.toNat))
      (by simp [Event.sign,noteUp,hk]) h _ rfl).1 rfl
  · intro hk
    exact (hab _ hfin (.up h (.pull m'.header.globalIdx.toNat))
      (by simp [Event.sign,noteUp,hk]) h _ rfl).2 rfl

theorem token_discipline (c : Config N) {s : System N} {hist : List (Event N)}
    (hr : Run (systemMachine c) s hist) (h : Fin N) (t : ℕ) (ht : t < c.num h) :
    Disciplined c s hist h t := by
  obtain ⟨p,hf,hc⟩ := exists_course hr
  obtain ⟨n,hn⟩ := course_said hc h t
  have hexchange := tokenExchange_eq (run_genuine hr) ht
  have hpulls := pullsUnderWay_eq hf ht
  have hm := hf.hosts h
  obtain ⟨k,hk⟩ := (p.stage h t).said_conversation n
  have horder : tokenExchange c h t hist <+: (conversation k).map Talk.kind := by
    rw [hexchange,hn]
    exact hk.map _
  refine ⟨⟨k,horder⟩,?_,?_,?_,?_,rejected_notMem hr _,rejected_notMem hr _,run_lastFinish hr h⟩
  · rw [← count_dispatch k]
    exact horder.sublist.count_le _
  · intro st hst hdone
    have hstage := Stage.eq_done ((hm.tokens t st hst).combineDone ▸ hdone)
    rw [hexchange,hn,hstage]
    exact ⟨n,rfl⟩
  · rw [hpulls]
    split_ifs <;> omega
  · intro st hst
    rw [(hm.tokens t st hst).pullInflight,hpulls]
    split_ifs with hin <;> simp [hin]

theorem token_discipline_sample : ∃ (s : System 1) (hist : List (Event 1)),
    Run (systemMachine (soloConfig .fourLoops 1)) s hist ∧ hist ≠ [] ∧
    Disciplined (soloConfig .fourLoops 1) s hist 0 0 := by
  obtain ⟨s,hist,hrun,hp⟩ := exists_run_of_replay (systemMachine (soloConfig .fourLoops 1))
    (fun _ _ => true) (System.initial _) soloRun (fun _ hist => !hist.isEmpty) rfl
    (by decide +kernel)
  exact ⟨s,hist,hrun.run,by simpa using hp,token_discipline _ hrun.run 0 0 (by decide)⟩

/-- A host that is its own expert receives EXPERT_INPUT before the ACK of its dispatch. -/
theorem exchange_interleaves_work : ∃ (s : System 1) (hist : List (Event 1)),
    Run (systemMachine (soloConfig .fourLoops 1)) s hist ∧
    ¬∃ n, hist.filterMap (Event.exchanged (soloConfig .fourLoops 1) 0 0) <+:
      (conversation n).map Talk.kind := by
  obtain ⟨s,hist,hrun,hp⟩ := exists_run_of_replay (systemMachine (soloConfig .fourLoops 1))
    (fun _ _ => true) (System.initial _) soloRun
    (fun _ hist => (hist.filterMap (Event.exchanged (soloConfig .fourLoops 1) 0 0))[1]? =
      some .expertInput) rfl (by decide +kernel)
  refine ⟨s,hist,hrun.run,?_⟩
  rintro ⟨n,rest,hrest⟩
  have hsecond := of_decide_eq_true hp
  obtain ⟨hlen,-⟩ := List.getElem?_eq_some_iff.mp hsecond
  have hfront : ((conversation n).map Talk.kind)[1]? = some .expertInput := by
    rw [← hrest,List.getElem?_append_left hlen,hsecond]
  simp [conversation,Talk.kind] at hfront

end INA2A

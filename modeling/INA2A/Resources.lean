import INA2A.Lib.Ledger

/-! The resources of connections and listeners (`transport_softroce.cc`): what is acquired and
released on every path, whatever the verbs and the connection manager answer. -/
namespace INA2A

open Ledgers

inductive Kind
  | cmId | addrinfo | object | pd | cq | buffer | mr | qp
  deriving DecidableEq

/-- What is held, and what the calls to come will answer. -/
structure World where
  ledger : Ledger Kind
  answers : Stream' Bool

def World.answer (w : World) : Bool := w.answers.head

def World.asked (w : World) : World := { w with answers := w.answers.tail }

@[simp] theorem World.asked_ledger (w : World) : w.asked.ledger = w.ledger := rfl

def World.acquire (w : World) (kind : Kind) (needs : List ℕ) : Option (Entry Kind × World) :=
  (w.ledger.acquire kind needs).map fun r => (r.1,{ w with ledger := r.2 })

def World.releaseAll (l : List (Entry Kind)) (w : World) : Option World :=
  (Ledger.releaseAll l w.ledger).map fun s => { w with ledger := s }

def World.release (w : World) (e : Entry Kind) : Option World := w.releaseAll [e]

/-- `SrConn`, with the object that holds it and the queue pair of its id; null pointers are
`none`. -/
structure SrConn where
  object : Entry Kind
  id : Option (Entry Kind)
  qp : Option (Entry Kind)
  pd : Option (Entry Kind)
  sendCq : Option (Entry Kind)
  recvCq : Option (Entry Kind)
  sendMr : Option (Entry Kind)
  recvMr : Option (Entry Kind)
  sendBuf : Option (Entry Kind)
  recvBuf : Option (Entry Kind)
  recvPosted : Bool

def SrConn.new (object id : Entry Kind) : SrConn where
  object := object
  id := some id
  qp := none
  pd := none
  sendCq := none
  recvCq := none
  sendMr := none
  recvMr := none
  sendBuf := none
  recvBuf := none
  recvPosted := false

/-- Release what a pointer holds unless it is null. -/
def releaseField (o : Option (Entry Kind)) (w : World) : Option World :=
  match o with
  | none => some w
  | some e => w.release e

/-- `rdma_disconnect` may fail without consequence. -/
def destroyConnResources (conn : SrConn) (w : World) : Option World :=
  (if conn.id.isSome then releaseField conn.qp w else some w).bind fun w =>
  (releaseField conn.sendMr w).bind fun w =>
  (releaseField conn.recvMr w).bind fun w =>
  (releaseField conn.sendCq w).bind fun w =>
  (releaseField conn.recvCq w).bind fun w =>
  (releaseField conn.pd w).bind fun w =>
  (releaseField conn.id w).bind fun w =>
  (releaseField conn.sendBuf w).bind fun w =>
  releaseField conn.recvBuf w

/-- `sr_close` of a connection that is not null: its resources, then `delete`. -/
def srClose (conn : SrConn) (w : World) : Option World :=
  (destroyConnResources conn w).bind fun w => w.release conn.object

/-- One call of `build_conn_resources`: what it acquires, what that needs, and where the
pointer goes. -/
structure BuildStage where
  kind : Kind
  needs : SrConn → List (Option (Entry Kind))
  put : SrConn → Entry Kind → SrConn

def allocPd : BuildStage := ⟨.pd,fun _ => [],fun conn e => { conn with pd := some e }⟩
def createSendCq : BuildStage := ⟨.cq,fun _ => [],fun conn e => { conn with sendCq := some e }⟩
def createRecvCq : BuildStage := ⟨.cq,fun _ => [],fun conn e => { conn with recvCq := some e }⟩
def allocSendBuf : BuildStage := ⟨.buffer,fun _ => [],fun conn e => { conn with sendBuf := some e }⟩
def allocRecvBuf : BuildStage := ⟨.buffer,fun _ => [],fun conn e => { conn with recvBuf := some e }⟩
def regSendMr : BuildStage :=
  ⟨.mr,fun conn => [conn.pd,conn.sendBuf],fun conn e => { conn with sendMr := some e }⟩
def regRecvMr : BuildStage :=
  ⟨.mr,fun conn => [conn.pd,conn.recvBuf],fun conn e => { conn with recvMr := some e }⟩
def createQp : BuildStage :=
  ⟨.qp,fun conn => [conn.id,conn.pd,conn.sendCq,conn.recvCq],fun conn e => { conn with qp := some e }⟩

/-- The stages one after the other, up to the first whose call fails; a null pointer among what
a stage needs is a misuse. -/
def runStages : List BuildStage → SrConn → World → Option (Bool × SrConn × World)
  | [], conn, w => some (true,conn,w)
  | st::stages, conn, w =>
    if !w.answer then some (false,conn,w.asked)
    else
      ((st.needs conn).mapM id).bind fun needed =>
      (w.asked.acquire st.kind (needed.map Entry.handle)).bind fun r =>
      runStages stages (st.put conn r.1) r.2

def postFirstRecv (conn : SrConn) (w : World) : Bool × SrConn × World :=
  if conn.id.isNone || conn.qp.isNone || conn.recvMr.isNone || conn.recvBuf.isNone then
    (false,conn,w)
  else if !w.answer then (false,conn,w.asked)
  else (true,{ conn with recvPosted := true },w.asked)

/-- The id must be bound to a device. -/
def buildConnResources (conn : SrConn) (w : World) : Option (Bool × SrConn × World) :=
  if conn.id.isNone || !w.answer then some (false,conn,w.asked)
  else
    (runStages [allocPd,createSendCq,createRecvCq,allocSendBuf,allocRecvBuf,regSendMr,regRecvMr,
      createQp] conn w.asked).map fun r =>
        if r.1 then postFirstRecv r.2.1 r.2.2 else r

/-- What `sr_connect` does once the route is resolved, and `sr_accept` with the id of a request:
a connection is built, then `rdma_connect` or `rdma_accept` is called. -/
def establish (id : Entry Kind) (w : World) : Option (Option SrConn × World) :=
  (w.acquire .object []).bind fun r =>
  (buildConnResources (SrConn.new r.1 id) r.2).bind fun b =>
  if !b.1 then (srClose b.2.1 b.2.2).map fun w => (none,w)
  else if !b.2.2.answer then (srClose b.2.1 b.2.2.asked).map fun w => (none,w)
  else some (some b.2.1,b.2.2.asked)

/-- `sr_connect`; a `getaddrinfo` that yields no address has failed. -/
def srConnect (w : World) : Option (Option SrConn × World) :=
  -- rdma_create_id
  if !w.answer then some (none,w.asked)
  else (w.asked.acquire .cmId []).bind fun id =>
  -- getaddrinfo
  if !id.2.answer then (id.2.asked.release id.1).map fun w => (none,w)
  else (id.2.asked.acquire .addrinfo []).bind fun res =>
  -- rdma_resolve_addr
  if !res.2.answer then
    (res.2.asked.release res.1).bind fun w => (w.release id.1).map fun w => (none,w)
  else (res.2.asked.release res.1).bind fun w =>
  -- rdma_resolve_route
  if !w.answer then (w.asked.release id.1).map fun w => (none,w)
  else establish id.1 w.asked

structure SrListener where
  object : Entry Kind
  id : Entry Kind

def srListen (w : World) : Option (Option SrListener × World) :=
  -- rdma_create_id
  if !w.answer then some (none,w.asked)
  else (w.asked.acquire .cmId []).bind fun id =>
  -- rdma_bind_addr
  if !id.2.answer then (id.2.asked.release id.1).map fun w => (none,w)
  -- rdma_listen
  else if !id.2.asked.answer then (id.2.asked.asked.release id.1).map fun w => (none,w)
  else (id.2.asked.asked.acquire .object []).map fun r => (some ⟨r.1,id.1⟩,r.2)

/-- `sr_accept` on a listener that stands. -/
def srAccept (w : World) : Option (Option SrConn × World) :=
  -- rdma_get_request
  if !w.answer then some (none,w.asked)
  else (w.asked.acquire .cmId []).bind fun id => establish id.1 id.2

def srCloseListener (listener : SrListener) (w : World) : Option World :=
  (w.release listener.id).bind fun w => w.release listener.object

/-- In the order of `destroy_conn_resources`. -/
def SrConn.owned (conn : SrConn) : List (Entry Kind) :=
  conn.qp.toList ++ conn.sendMr.toList ++ conn.recvMr.toList ++ conn.sendCq.toList ++
    conn.recvCq.toList ++ conn.pd.toList ++ conn.id.toList ++ conn.sendBuf.toList ++
    conn.recvBuf.toList

/-- All that `sr_close` releases. -/
def SrConn.entries (conn : SrConn) : List (Entry Kind) := conn.owned ++ [conn.object]

/-- A connection that can be closed by itself. -/
structure SrConn.Sound (conn : SrConn) : Prop where
  order : DependentsFirst conn.entries
  closed : Closed (conn.entries : Multiset (Entry Kind))
  named : conn.qp.isSome = true → conn.id.isSome = true

/-- A connection with all its resources and a receive posted. -/
structure SrConn.Full (conn : SrConn) : Prop where
  sound : conn.Sound
  kinds : conn.entries.map Entry.kind = [.qp,.mr,.mr,.cq,.cq,.pd,.cmId,.buffer,.buffer,.object]
  posted : conn.recvPosted = true

variable {w w' : World} {conn : SrConn} {m : Multiset (Entry Kind)} {l l' : List (Entry Kind)}

theorem World.releaseAll_append :
    w.releaseAll (l ++ l') = (w.releaseAll l).bind fun w => w.releaseAll l' := by
  simp only [World.releaseAll,Ledger.releaseAll_append]
  cases Ledger.releaseAll l w.ledger <;> rfl

theorem releaseField_eq (o : Option (Entry Kind)) (w : World) :
    releaseField o w = w.releaseAll o.toList := by
  cases o <;> rfl

theorem destroyConnResources_eq (h : conn.qp.isSome = true → conn.id.isSome = true) :
    destroyConnResources conn w = w.releaseAll conn.owned := by
  have hqp : (if conn.id.isSome then releaseField conn.qp w else some w) =
      w.releaseAll conn.qp.toList := by
    split_ifs with hid
    · exact releaseField_eq _ _
    · cases hqp : conn.qp with
      | none => rfl
      | some e => exact absurd (h (by rw [hqp]; rfl)) hid
  rw [destroyConnResources,hqp]
  simp only [releaseField_eq,SrConn.owned,World.releaseAll_append,Option.bind_assoc]

theorem srClose_eq (h : conn.Sound) : srClose conn w = w.releaseAll conn.entries := by
  rw [srClose,destroyConnResources_eq h.named,SrConn.entries,World.releaseAll_append]
  rfl

theorem World.releaseAll_eq (hlive : w.ledger.live = (l : Multiset (Entry Kind)) + m)
    (hm : Closed m) (horder : DependentsFirst l) :
    ∃ w', w.releaseAll l = some w' ∧ w'.ledger.live = m := by
  obtain ⟨s,hs,hlive',-⟩ := Ledger.releaseAll_eq hlive hm horder
  exact ⟨{ w with ledger := s },by rw [World.releaseAll,hs]; rfl,hlive'⟩

theorem SrConn.Sound.close (h : conn.Sound)
    (hlive : w.ledger.live = (conn.entries : Multiset (Entry Kind)) + m) (hm : Closed m) :
    ∃ w', srClose conn w = some w' ∧ w'.ledger.live = m := by
  rw [srClose_eq h]
  exact World.releaseAll_eq hlive hm h.order

/-- What is acquired goes in front of all that it needs. -/
structure BuildStage.Fits (st : BuildStage) (conn : SrConn) : Prop where
  place : ∃ before after needed : List (Entry Kind), conn.owned = before ++ after ∧
    (∀ e, (st.put conn e).owned = before ++ e::after) ∧
    st.needs conn = needed.map some ∧ ∀ x ∈ needed, x ∈ after
  object : ∀ e, (st.put conn e).object = conn.object
  named : ∀ e, (st.put conn e).qp.isSome = true → (st.put conn e).id.isSome = true

inductive Fit (P : SrConn → Prop) : List BuildStage → SrConn → Prop
  | done (conn : SrConn) : P conn → Fit P [] conn
  | stage (st : BuildStage) (stages : List BuildStage) (conn : SrConn) : st.Fits conn →
      (∀ e : Entry Kind, e.kind = st.kind → Fit P stages (st.put conn e)) →
      Fit P (st::stages) conn

theorem World.acquire_eq {w : World} (kind : Kind) {needed : List (Entry Kind)}
    (h : ∀ x ∈ needed, x ∈ w.ledger.live) :
    ∃ w', w.acquire kind (needed.map Entry.handle) =
      some (⟨w.ledger.next,kind,needed.map Entry.handle⟩,w') ∧
      w'.ledger.live = ⟨w.ledger.next,kind,needed.map Entry.handle⟩ ::ₘ w.ledger.live := by
  obtain ⟨s,hs,hlive,-⟩ := Ledger.acquire_eq kind h
  exact ⟨{ w with ledger := s },by rw [World.acquire,hs]; rfl,hlive⟩

theorem mapM_some (l : List (Entry Kind)) : (l.map some).mapM id = some l := by
  induction l with
  | nil => rfl
  | cons e l ih => simp [List.mapM_cons,ih]

theorem BuildStage.Fits.acquire {st : BuildStage} (hfits : st.Fits conn) (hsound : conn.Sound)
    (hlive : w.ledger.live = (conn.entries : Multiset (Entry Kind)) + m) :
    ∃ needed e w', (st.needs conn).mapM id = some needed ∧
      w.acquire st.kind (needed.map Entry.handle) = some (e,w') ∧ e.kind = st.kind ∧
      (st.put conn e).Sound ∧
      w'.ledger.live = ((st.put conn e).entries : Multiset (Entry Kind)) + m := by
  obtain ⟨before,after,needed,howned,hput,hneeds,hmem⟩ := hfits.place
  have hentries : conn.entries = before ++ (after ++ [conn.object]) := by
    rw [SrConn.entries,howned,List.append_assoc]
  have hheld : ∀ x ∈ needed, x ∈ w.ledger.live := by
    intro x hx
    rw [hlive,hentries]
    simp [hmem x hx]
  obtain ⟨w',hacquire,hlive'⟩ := World.acquire_eq st.kind hheld
  have horder := hsound.order
  have hclosed := hsound.closed
  rw [hentries] at horder hclosed hlive
  have hafter : ∀ x ∈ needed, x ∈ after ++ [conn.object] :=
    fun x hx => List.mem_append_left _ (hmem x hx)
  have hnew : ∀ e, (st.put conn e).entries = before ++ e::(after ++ [conn.object]) := by
    intro e
    rw [SrConn.entries,hput,hfits.object]
    simp
  refine ⟨needed,_,w',by rw [hneeds,mapM_some],hacquire,rfl,⟨?_,?_,hfits.named _⟩,?_⟩
  · rw [hnew]
    exact DependentsFirst.insert hlive horder hafter
  · rw [hnew]
    exact hclosed.insert hafter
  · rw [hlive',hlive,hnew,← Multiset.cons_add,Multiset.cons_coe]
    congr 1
    exact Multiset.coe_eq_coe.mpr List.perm_middle.symm

theorem runStages_eq {P : SrConn → Prop} {stages : List BuildStage} (hfit : Fit P stages conn)
    (hsound : conn.Sound) (hlive : w.ledger.live = (conn.entries : Multiset (Entry Kind)) + m) :
    ∃ r, runStages stages conn w = some r ∧ r.2.1.Sound ∧
      r.2.2.ledger.live = (r.2.1.entries : Multiset (Entry Kind)) + m ∧
      (r.1 = true → P r.2.1) := by
  induction hfit generalizing w with
  | done conn hP => exact ⟨_,rfl,hsound,hlive,fun _ => hP⟩
  | stage st stages conn hfits _ ih =>
    rw [runStages]
    split_ifs with hanswer
    · exact ⟨_,rfl,hsound,hlive,by simp⟩
    · obtain ⟨needed,e,w₁,hneeds,hacquire,hkind,hsound₁,hlive₁⟩ :=
        hfits.acquire (w:=w.asked) hsound hlive
      simp only [hneeds,Option.bind_some,hacquire]
      exact ih e hkind hsound₁ hlive₁

/-- All pointers of a connection are set. -/
structure SrConn.Complete (conn : SrConn) : Prop where
  kinds : conn.entries.map Entry.kind = [.qp,.mr,.mr,.cq,.cq,.pd,.cmId,.buffer,.buffer,.object]
  ready : conn.id.isSome ∧ conn.qp.isSome ∧ conn.recvMr.isSome ∧ conn.recvBuf.isSome

/-- The stages of `build_conn_resources` fit one after the other. -/
theorem build_fit {object id : Entry Kind} (hobject : object.kind = .object) (hid : id.kind = .cmId) :
    Fit SrConn.Complete [allocPd,createSendCq,createRecvCq,allocSendBuf,allocRecvBuf,regSendMr,
      regRecvMr,createQp] (.new object id) := by
  refine .stage _ _ _ ⟨⟨[],[id],[],rfl,fun _ => rfl,rfl,by simp⟩,fun _ => rfl,fun _ _ => rfl⟩
    fun pd hpd => ?_
  refine .stage _ _ _ ⟨⟨[],[pd,id],[],rfl,fun _ => rfl,rfl,by simp⟩,fun _ => rfl,fun _ _ => rfl⟩
    fun sendCq hsendCq => ?_
  refine .stage _ _ _ ⟨⟨[sendCq],[pd,id],[],rfl,fun _ => rfl,rfl,by simp⟩,fun _ => rfl,fun _ _ => rfl⟩
    fun recvCq hrecvCq => ?_
  refine .stage _ _ _ ⟨⟨[sendCq,recvCq,pd,id],[],[],rfl,fun _ => rfl,rfl,by simp⟩,fun _ => rfl,
    fun _ _ => rfl⟩ fun sendBuf hsendBuf => ?_
  refine .stage _ _ _ ⟨⟨[sendCq,recvCq,pd,id,sendBuf],[],[],rfl,fun _ => rfl,rfl,by simp⟩,
    fun _ => rfl,fun _ _ => rfl⟩ fun recvBuf hrecvBuf => ?_
  refine .stage _ _ _ ⟨⟨[],[sendCq,recvCq,pd,id,sendBuf,recvBuf],[pd,sendBuf],rfl,fun _ => rfl,rfl,
    by simp⟩,fun _ => rfl,fun _ _ => rfl⟩ fun sendMr hsendMr => ?_
  refine .stage _ _ _ ⟨⟨[sendMr],[sendCq,recvCq,pd,id,sendBuf,recvBuf],[pd,recvBuf],rfl,
    fun _ => rfl,rfl,by simp⟩,fun _ => rfl,fun _ _ => rfl⟩ fun recvMr hrecvMr => ?_
  refine .stage _ _ _ ⟨⟨[],[sendMr,recvMr,sendCq,recvCq,pd,id,sendBuf,recvBuf],
    [id,pd,sendCq,recvCq],rfl,fun _ => rfl,rfl,by simp⟩,fun _ => rfl,fun _ _ => rfl⟩ fun qp hqp => ?_
  refine .done _ ⟨?_,rfl,rfl,rfl,rfl⟩
  change [qp.kind,sendMr.kind,recvMr.kind,sendCq.kind,recvCq.kind,pd.kind,id.kind,sendBuf.kind,
    recvBuf.kind,object.kind] = _
  rw [hqp,hsendMr,hrecvMr,hsendCq,hrecvCq,hpd,hid,hsendBuf,hrecvBuf,hobject]
  rfl

theorem SrConn.new_sound {object id : Entry Kind} (hobject : object.needs = []) (hid : id.needs = []) :
    (SrConn.new object id).Sound := by
  have hentries : (SrConn.new object id).entries = [id,object] := rfl
  refine ⟨?_,?_,by simp [SrConn.new]⟩
  · rw [hentries]
    simp [hobject]
  · rw [hentries]
    intro e he n hn
    simp only [Multiset.mem_coe,List.mem_cons,List.not_mem_nil,or_false] at he
    rcases he with rfl | rfl <;> simp_all

theorem postFirstRecv_eq (conn : SrConn) (w : World) :
    (postFirstRecv conn w).2.1.entries = conn.entries ∧
      ((postFirstRecv conn w).2.1.Sound ↔ conn.Sound) ∧
      (postFirstRecv conn w).2.2.ledger = w.ledger ∧
      ((postFirstRecv conn w).1 = true → (postFirstRecv conn w).2.1.recvPosted = true) := by
  unfold postFirstRecv
  split_ifs
  · exact ⟨rfl,Iff.rfl,rfl,by simp⟩
  · exact ⟨rfl,Iff.rfl,rfl,by simp⟩
  · exact ⟨rfl,⟨fun h => ⟨h.order,h.closed,h.named⟩,fun h => ⟨h.order,h.closed,h.named⟩⟩,rfl,
      fun _ => rfl⟩

theorem buildConnResources_eq {object id : Entry Kind} (hobject : object.kind = .object ∧ object.needs = [])
    (hid : id.kind = .cmId ∧ id.needs = [])
    (hlive : w.ledger.live = ((SrConn.new object id).entries : Multiset (Entry Kind)) + m) :
    ∃ r, buildConnResources (.new object id) w = some r ∧ r.2.1.Sound ∧
      r.2.2.ledger.live = (r.2.1.entries : Multiset (Entry Kind)) + m ∧ (r.1 = true → r.2.1.Full) := by
  have hsound := SrConn.new_sound hobject.2 hid.2
  unfold buildConnResources
  split_ifs
  · exact ⟨_,rfl,hsound,hlive,by simp⟩
  · obtain ⟨r,hr,hrsound,hrlive,hcomplete⟩ :=
      runStages_eq (w:=w.asked) (build_fit hobject.1 hid.1) hsound hlive
    rw [hr]
    by_cases hok : r.1 = true
    · obtain ⟨hentries,hsame,hledger,hposted⟩ := postFirstRecv_eq r.2.1 r.2.2
      refine ⟨postFirstRecv r.2.1 r.2.2,by simp [hok],hsame.mpr hrsound,?_,fun hp => ?_⟩
      · rw [hledger,hentries]
        exact hrlive
      · exact ⟨hsame.mpr hrsound,by rw [hentries]; exact (hcomplete hok).kinds,hposted hp⟩
    · exact ⟨r,by simp [hok],hrsound,hrlive,fun h => absurd h hok⟩

/-- What a call that may yield a connection leaves behind: a complete connection, or nothing. -/
structure Yields (w : World) (r : Option SrConn × World) : Prop where
  none : r.1 = none → r.2.ledger.live = w.ledger.live
  some : ∀ conn, r.1 = some conn → conn.Full ∧
    r.2.ledger.live = (conn.entries : Multiset (Entry Kind)) + w.ledger.live

theorem World.acquire_bare (w : World) (kind : Kind) :
    ∃ e w', w.acquire kind [] = some (e,w') ∧ e.kind = kind ∧ e.needs = [] ∧
      w'.ledger.live = e ::ₘ w.ledger.live := by
  have hnone : ∀ x ∈ ([] : List (Entry Kind)), x ∈ w.ledger.live := by simp
  obtain ⟨w',hw,hlive⟩ := World.acquire_eq kind hnone
  exact ⟨_,w',hw,rfl,rfl,hlive⟩

theorem World.release_eq {e : Entry Kind} (hlive : w.ledger.live = e ::ₘ m) (hm : Closed m) :
    ∃ w', w.release e = some w' ∧ w'.ledger.live = m := by
  refine World.releaseAll_eq (l:=[e]) ?_ hm (by simp)
  rw [hlive]
  rfl

theorem establish_yields {id : Entry Kind} {before : World} (hid : id.kind = .cmId ∧ id.needs = [])
    (hlive : w.ledger.live = id ::ₘ before.ledger.live) :
    ∃ r, establish id w = some r ∧ Yields before r := by
  obtain ⟨object,w₁,hacquire,hkind,hneeds,hlive₁⟩ := w.acquire_bare .object
  rw [establish,hacquire]
  have hnew : w₁.ledger.live =
      ((SrConn.new object id).entries : Multiset (Entry Kind)) + before.ledger.live := by
    have hentries : (SrConn.new object id).entries = [id,object] := rfl
    rw [hlive₁,hlive,hentries,← Multiset.cons_coe,← Multiset.cons_coe,Multiset.coe_nil,
      Multiset.cons_add,Multiset.cons_add,zero_add,Multiset.cons_swap]
  obtain ⟨r,hr,hsound,hrlive,hfull⟩ := buildConnResources_eq ⟨hkind,hneeds⟩ hid hnew
  simp only [Option.bind_some,hr]
  have hclose : ∀ w' : World, w'.ledger = r.2.2.ledger → ∃ out,
      (srClose r.2.1 w').map (fun w => ((none : Option SrConn),w)) = some out ∧ Yields before out := by
    intro w' hw'
    obtain ⟨u,hu,hlive'⟩ := hsound.close (w:=w') (by rw [hw',hrlive]) before.ledger.closed
    exact ⟨_,by rw [hu]; rfl,⟨fun _ => hlive',by simp⟩⟩
  split_ifs with hbuilt hanswer
  · exact hclose _ rfl
  · exact hclose _ rfl
  · refine ⟨_,rfl,⟨by simp,?_⟩⟩
    rintro conn hconn
    obtain rfl := Option.some.inj hconn
    exact ⟨hfull (by simpa using hbuilt),hrlive⟩

theorem srAccept_yields (w : World) : ∃ r, srAccept w = some r ∧ Yields w r := by
  unfold srAccept
  split_ifs
  · exact ⟨_,rfl,⟨fun _ => rfl,by simp⟩⟩
  · obtain ⟨id,w₁,hacquire,hkind,hneeds,hlive₁⟩ := w.asked.acquire_bare .cmId
    rw [hacquire,Option.bind_some]
    exact establish_yields ⟨hkind,hneeds⟩ hlive₁

theorem World.release_yields {id : Entry Kind} {before : World}
    (hlive : w.ledger.live = id ::ₘ before.ledger.live) :
    ∃ r, ((w.release id).map fun w => ((none : Option SrConn),w)) = some r ∧ Yields before r := by
  obtain ⟨w',hw',hlive'⟩ := World.release_eq hlive before.ledger.closed
  exact ⟨(none,w'),by rw [hw']; rfl,⟨fun _ => hlive',by simp⟩⟩

theorem srConnect_yields (w : World) : ∃ r, srConnect w = some r ∧ Yields w r := by
  unfold srConnect
  split_ifs
  · exact ⟨_,rfl,⟨fun _ => rfl,by simp⟩⟩
  obtain ⟨id,w₁,hacquire,hkind,hneeds,hlive₁⟩ := w.asked.acquire_bare .cmId
  rw [World.asked_ledger] at hlive₁
  rw [hacquire,Option.bind_some]
  split_ifs
  · exact World.release_yields (w:=w₁.asked) hlive₁
  obtain ⟨res,w₂,hacquire₂,-,hneeds₂,hlive₂⟩ := w₁.asked.acquire_bare .addrinfo
  rw [World.asked_ledger,hlive₁] at hlive₂
  rw [hacquire₂,Option.bind_some]
  -- the addresses are freed on both paths
  have hfree : ∀ u : World, u.ledger = w₂.ledger → ∃ w₃, u.release res = some w₃ ∧
      w₃.ledger.live = id ::ₘ w.ledger.live := by
    intro u hu
    refine World.release_eq (by rw [hu,hlive₂]) ?_
    rw [← hlive₁]
    exact w₁.ledger.closed
  obtain ⟨w₃,hfree₃,hlive₃⟩ := hfree w₂.asked rfl
  rw [hfree₃]
  split_ifs
  · rw [Option.bind_some]
    exact World.release_yields hlive₃
  · rw [Option.bind_some]
    split_ifs
    · exact World.release_yields (w:=w₃.asked) hlive₃
    · exact establish_yields (w:=w₃.asked) ⟨hkind,hneeds⟩ hlive₃

def SrListener.entries (listener : SrListener) : List (Entry Kind) := [listener.id,listener.object]

structure SrListener.Sound (listener : SrListener) : Prop where
  id : listener.id.needs = []
  object : listener.object.needs = []

theorem srListen_yields (w : World) : ∃ r, srListen w = some r ∧
    (r.1 = none → r.2.ledger.live = w.ledger.live) ∧
    ∀ listener, r.1 = some listener → listener.Sound ∧
      r.2.ledger.live = (listener.entries : Multiset (Entry Kind)) + w.ledger.live := by
  have hback : ∀ {u : World} {id : Entry Kind}, u.ledger.live = id ::ₘ w.ledger.live → ∃ r,
      ((u.release id).map fun w => ((none : Option SrListener),w)) = some r ∧
      (r.1 = none → r.2.ledger.live = w.ledger.live) ∧ ∀ listener, r.1 = some listener →
        listener.Sound ∧ r.2.ledger.live =
          (listener.entries : Multiset (Entry Kind)) + w.ledger.live := by
    intro u id hlive
    obtain ⟨u',hu',hlive'⟩ := World.release_eq hlive w.ledger.closed
    exact ⟨(none,u'),by rw [hu']; rfl,fun _ => hlive',by simp⟩
  unfold srListen
  split_ifs
  · exact ⟨_,rfl,fun _ => rfl,by simp⟩
  obtain ⟨id,w₁,hacquire,-,hneeds,hlive₁⟩ := w.asked.acquire_bare .cmId
  rw [hacquire,Option.bind_some]
  split_ifs
  · exact hback (u:=w₁.asked) hlive₁
  · exact hback (u:=w₁.asked.asked) hlive₁
  · obtain ⟨object,w₂,hacquire₂,-,hneeds₂,hlive₂⟩ := w₁.asked.asked.acquire_bare .object
    rw [hacquire₂,Option.map_some]
    refine ⟨_,rfl,by simp,?_⟩
    intro listener hlistener
    obtain rfl := Option.some.inj hlistener
    refine ⟨⟨hneeds,hneeds₂⟩,hlive₂.trans ?_⟩
    have hsame : w₁.asked.asked.ledger.live = id ::ₘ w.ledger.live := hlive₁
    rw [hsame,SrListener.entries,← Multiset.cons_coe,← Multiset.cons_coe,Multiset.coe_nil,
      Multiset.cons_add,Multiset.cons_add,zero_add,Multiset.cons_swap]

theorem SrListener.Sound.close {listener : SrListener} (h : listener.Sound)
    (hlive : w.ledger.live = (listener.entries : Multiset (Entry Kind)) + m) (hm : Closed m) :
    ∃ w', srCloseListener listener w = some w' ∧ w'.ledger.live = m := by
  have hall : srCloseListener listener w = w.releaseAll listener.entries := by
    rw [show listener.entries = [listener.id] ++ [listener.object] from rfl,World.releaseAll_append]
    rfl
  rw [hall]
  refine World.releaseAll_eq hlive hm ?_
  simp [SrListener.entries,h.object]

/-- What the transport makes sure of, whatever the calls to come will answer: it never misuses a
resource, what it yields is complete, and a call that yields nothing has left nothing. -/
structure TransportReleases (w : World) : Prop where
  connect : ∃ r, srConnect w = some r ∧ Yields w r
  accept : ∃ r, srAccept w = some r ∧ Yields w r
  listen : ∃ r, srListen w = some r ∧ (r.1 = none → r.2.ledger.live = w.ledger.live) ∧
    ∀ listener, r.1 = some listener → listener.Sound ∧
      r.2.ledger.live = (listener.entries : Multiset (Entry Kind)) + w.ledger.live
  close : ∀ (conn : SrConn) (m : Multiset (Entry Kind)), conn.Full → Closed m →
    w.ledger.live = (conn.entries : Multiset (Entry Kind)) + m →
    ∃ w', srClose conn w = some w' ∧ w'.ledger.live = m
  closeListener : ∀ (listener : SrListener) (m : Multiset (Entry Kind)), listener.Sound → Closed m →
    w.ledger.live = (listener.entries : Multiset (Entry Kind)) + m →
    ∃ w', srCloseListener listener w = some w' ∧ w'.ledger.live = m

theorem transport_releases (w : World) : TransportReleases w where
  connect := srConnect_yields w
  accept := srAccept_yields w
  listen := srListen_yields w
  close _ _ hfull hm hlive := hfull.sound.close hlive hm
  closeListener _ _ hsound hm hlive := hsound.close hlive hm

end INA2A

import INA2A.SwitchSteps

/-! The accept loop of the switch: which connections it registers, which it closes, and what
holds once it has registered as many hosts as it waits for. -/
namespace INA2A

open ByteBuffers BitWords EventMachine

/-- Connections are numbered in the order in which `sr_accept` returned them. -/
structure HostConn where
  rank : ℤ
  conn : ℕ
  deriving DecidableEq

abbrev HostMap := Std.ExtTreeMap ℤ HostConn compare

inductive AcceptStatus
  | accepting
  | returned (code : ℕ)
  deriving DecidableEq

structure AcceptLoop where
  i : ℤ
  hosts : HostMap
  acceptedHosts : List HostConn
  /-- How many connections `sr_accept` has returned. -/
  connections : ℕ
  status : AcceptStatus

/-- What happens in one iteration: `sr_accept` fails, or returns a connection on which
`sr_read` then fails or returns a message, and on which sending the ACK succeeds or fails. -/
inductive Attempt
  | acceptFailed
  | connected (hello : Option Msg) (ackTs : U64) (ackSent : Bool)

inductive AcceptEvent
  | closed (conn : ℕ)
  | listenerClosed
  | registered (host : HostConn)
  | toConn (conn : ℕ) (m : Msg)

def helloAckMsg (hello : MsgHeader) (ts : U64) : Msg where
  header := { MsgHeader.new .ack 0 with
    runId := hello.runId
    dstRank := hello.srcRank
    timestampNs := ts }
  payload := Bytes.empty

/-- `++i` -/
def AcceptLoop.increment (s : AcceptLoop) : AcceptLoop := { s with i := s.i + 1 }

/-- `--i; continue;` -/
def AcceptLoop.retry (s : AcceptLoop) : AcceptLoop := { s with i := s.i - 1 }.increment

/-- The body of the loop once `sr_accept` has returned the connection `conn`. -/
def acceptConn (numHosts : ℤ) (s : AcceptLoop) (conn : ℕ) (hello : Option Msg) (ackTs : U64)
    (ackSent : Bool) : AcceptLoop × List AcceptEvent :=
  match hello with
  | none => (s.retry,[.closed conn])
  | some hello =>
    let rank := hello.header.srcRank.toInt
    if hello.header.type ≠ MsgType.hello.code then (s.retry,[.closed conn])
    else if rank < 0 ∨ numHosts ≤ rank then (s.retry,[.closed conn])
    else if s.hosts.contains rank then (s.retry,[.closed conn])
    else
      let host := ⟨rank,conn⟩
      let s := { s with
        hosts := s.hosts.insert rank host
        acceptedHosts := s.acceptedHosts ++ [host] }
      if ackSent then
        (s.increment,[.registered host,.toConn conn (helloAckMsg hello.header ackTs)])
      else ({ s with status := .returned 5 },[.registered host,.closed conn])

def acceptStep (numHosts : ℤ) (s : AcceptLoop) : Attempt → Option (AcceptLoop × List AcceptEvent)
  | .acceptFailed =>
    if s.status = .accepting ∧ s.i < numHosts then
      some ({ s with status := .returned 4 },
        .listenerClosed::s.acceptedHosts.map fun host => .closed host.conn)
    else none
  | .connected hello ackTs ackSent =>
    if s.status = .accepting ∧ s.i < numHosts then
      some (acceptConn numHosts { s with connections := s.connections + 1 } s.connections hello
        ackTs ackSent)
    else none

def AcceptLoop.initial : AcceptLoop where
  i := 0
  hosts := ∅
  acceptedHosts := []
  connections := 0
  status := .accepting

/-- The accept loop under arbitrary connection attempts. -/
def acceptMachine (numHosts : ℤ) : Machine AcceptLoop Attempt AcceptEvent where
  init s := s = AcceptLoop.initial
  step := acceptStep numHosts

def AcceptLoop.findHost (s : AcceptLoop) (rank : ℤ) : Option HostConn := s.hosts[rank]?

def AcceptEvent.closedConn : AcceptEvent → Option ℕ
  | .closed conn => some conn
  | _ => none

/-- How often `sr_close` was called on a connection. -/
def timesClosed (hist : List AcceptEvent) (conn : ℕ) : ℕ :=
  (hist.filterMap AcceptEvent.closedConn).count conn

theorem timesClosed_append (hist ev : List AcceptEvent) (conn : ℕ) :
    timesClosed (hist ++ ev) conn = timesClosed hist conn + timesClosed ev conn := by
  simp [timesClosed]

inductive AcceptMove (numHosts : ℤ) (s : AcceptLoop) : AcceptLoop → List AcceptEvent → Prop
  | acceptFailed : AcceptMove numHosts s { s with status := .returned 4 }
      (.listenerClosed::s.acceptedHosts.map fun host => .closed host.conn)
  | rejected : AcceptMove numHosts s { s with connections := s.connections + 1 }
      [.closed s.connections]
  | registered (rank : ℤ) (m : Msg) : 0 ≤ rank → rank < numHosts → s.hosts[rank]? = none →
      AcceptMove numHosts s
        { i := s.i + 1
          hosts := s.hosts.insert rank ⟨rank,s.connections⟩
          acceptedHosts := s.acceptedHosts ++ [⟨rank,s.connections⟩]
          connections := s.connections + 1
          status := s.status }
        [.registered ⟨rank,s.connections⟩,.toConn s.connections m]
  | ackFailed (rank : ℤ) : 0 ≤ rank → rank < numHosts → s.hosts[rank]? = none →
      AcceptMove numHosts s
        { i := s.i
          hosts := s.hosts.insert rank ⟨rank,s.connections⟩
          acceptedHosts := s.acceptedHosts ++ [⟨rank,s.connections⟩]
          connections := s.connections + 1
          status := .returned 5 }
        [.registered ⟨rank,s.connections⟩,.closed s.connections]

theorem AcceptLoop.retry_eq (s : AcceptLoop) : s.retry = s := by
  cases s
  simp [AcceptLoop.retry,AcceptLoop.increment]

theorem acceptStep_move {numHosts : ℤ} {s s' : AcceptLoop} {a : Attempt} {ev : List AcceptEvent}
    (hs : acceptStep numHosts s a = some (s',ev)) :
    s.status = .accepting ∧ s.i < numHosts ∧ AcceptMove numHosts s s' ev := by
  cases a with
  | acceptFailed =>
    simp only [acceptStep] at hs
    split_ifs at hs with hguard
    cases hs
    exact ⟨hguard.1,hguard.2,.acceptFailed⟩
  | connected hello ackTs ackSent =>
    simp only [acceptStep] at hs
    split_ifs at hs with hguard
    refine ⟨hguard.1,hguard.2,?_⟩
    have hrejected : AcceptMove numHosts s { s with connections := s.connections + 1 }
      [.closed s.connections] := .rejected
    simp only [Option.some.injEq,acceptConn,AcceptLoop.retry_eq] at hs
    cases hello with
    | none =>
      cases hs
      exact hrejected
    | some hello =>
      dsimp only at hs
      split_ifs at hs with htype hrange hcount hack
      · cases hs
        exact hrejected
      · cases hs
        exact hrejected
      · cases hs
        exact hrejected
      all_goals
        have hnone : s.hosts[hello.header.srcRank.toInt]? = none := by
          rw [Std.ExtTreeMap.contains_eq_isSome_getElem?] at hcount
          simpa using hcount
        push Not at hrange
        cases hs
      · exact .registered _ _ hrange.1 hrange.2 hnone
      · exact .ackFailed _ hrange.1 hrange.2 hnone

/-- The registered hosts, the accepted ones and the connections agree. -/
structure HostsAgree (numHosts : ℤ) (s : AcceptLoop) : Prop where
  size : s.hosts.size = s.acceptedHosts.length
  entry : ∀ rank host, s.hosts[rank]? = some host ↔ host ∈ s.acceptedHosts ∧ host.rank = rank
  inRange : ∀ host ∈ s.acceptedHosts, 0 ≤ host.rank ∧ host.rank < numHosts
  older : ∀ host ∈ s.acceptedHosts, host.conn < s.connections
  ranks : (s.acceptedHosts.map HostConn.rank).Nodup
  conns : (s.acceptedHosts.map HostConn.conn).Nodup

/-- While the loop goes on: what it counted and what it closed. -/
structure LoopHead (s : AcceptLoop) (hist : List AcceptEvent) : Prop where
  counted : s.i = s.acceptedHosts.length
  closed : ∀ conn, timesClosed hist conn =
    if conn < s.connections ∧ conn ∉ s.acceptedHosts.map HostConn.conn then 1 else 0

theorem HostsAgree.initial (numHosts : ℤ) : HostsAgree numHosts AcceptLoop.initial := by
  constructor <;> simp [AcceptLoop.initial]

theorem HostsAgree.more {numHosts : ℤ} {s : AcceptLoop} (h : HostsAgree numHosts s) :
    HostsAgree numHosts { s with connections := s.connections + 1 } where
  size := h.size
  entry := h.entry
  inRange := h.inRange
  older host hh := Nat.lt_succ_of_lt (h.older host hh)
  ranks := h.ranks
  conns := h.conns

theorem HostsAgree.fresh {numHosts rank : ℤ} {s : AcceptLoop} (h : HostsAgree numHosts s)
    (hnone : s.hosts[rank]? = none) : ∀ host ∈ s.acceptedHosts, host.rank ≠ rank := by
  intro host hh heq
  have hentry := (h.entry rank host).mpr ⟨hh,heq⟩
  rw [hnone] at hentry
  cases hentry

theorem HostsAgree.add {numHosts rank : ℤ} {s s' : AcceptLoop} (h : HostsAgree numHosts s)
    (h0 : 0 ≤ rank) (hlt : rank < numHosts) (hnone : s.hosts[rank]? = none)
    (hhosts : s'.hosts = s.hosts.insert rank ⟨rank,s.connections⟩)
    (haccepted : s'.acceptedHosts = s.acceptedHosts ++ [⟨rank,s.connections⟩])
    (hconnections : s'.connections = s.connections + 1) : HostsAgree numHosts s' where
  size := by
    have hcontains : s.hosts.contains rank = false := by
      rw [Std.ExtTreeMap.contains_eq_isSome_getElem?,hnone]
      rfl
    rw [hhosts,haccepted,Std.ExtTreeMap.size_insert,hcontains,List.length_append,h.size]
    simp
  entry r host := by
    rw [hhosts,haccepted,Std.ExtTreeMap.getElem?_insert,List.mem_append,List.mem_singleton]
    by_cases hr : rank = r
    · subst hr
      rw [if_pos Std.ReflCmp.compare_self,Option.some.injEq]
      constructor
      · rintro rfl
        exact ⟨.inr rfl,rfl⟩
      · rintro ⟨hh | hh,heq⟩
        · exact absurd heq (h.fresh hnone host hh)
        · exact hh.symm
    · rw [if_neg (mt Std.LawfulEqCmp.eq_of_compare hr),h.entry]
      constructor
      · exact fun hh => ⟨.inl hh.1,hh.2⟩
      · rintro ⟨hh | rfl,heq⟩
        · exact ⟨hh,heq⟩
        · exact absurd heq hr
  inRange host hh := by
    rw [haccepted,List.mem_append,List.mem_singleton] at hh
    rcases hh with hh | rfl
    · exact h.inRange host hh
    · exact ⟨h0,hlt⟩
  older host hh := by
    rw [haccepted,List.mem_append,List.mem_singleton] at hh
    rw [hconnections]
    rcases hh with hh | rfl
    · exact Nat.lt_succ_of_lt (h.older host hh)
    · exact Nat.lt_succ_self _
  ranks := by
    rw [haccepted,List.map_append,List.map_singleton]
    refine h.ranks.append (List.nodup_singleton _) ?_
    rw [List.disjoint_singleton,List.mem_map]
    rintro ⟨host,hh,heq⟩
    exact h.fresh hnone host hh heq
  conns := by
    rw [haccepted,List.map_append,List.map_singleton]
    refine h.conns.append (List.nodup_singleton _) ?_
    rw [List.disjoint_singleton,List.mem_map]
    rintro ⟨host,hh,heq⟩
    have := h.older host hh
    dsimp only at heq
    omega

theorem HostsAgree.step {numHosts : ℤ} {s s' : AcceptLoop} {ev : List AcceptEvent}
    (h : HostsAgree numHosts s) (hm : AcceptMove numHosts s s' ev) : HostsAgree numHosts s' := by
  cases hm with
  | acceptFailed => exact ⟨h.size,h.entry,h.inRange,h.older,h.ranks,h.conns⟩
  | rejected => exact h.more
  | registered rank m h0 hlt hnone => exact h.add h0 hlt hnone rfl rfl rfl
  | ackFailed rank h0 hlt hnone => exact h.add h0 hlt hnone rfl rfl rfl

theorem LoopHead.step {numHosts : ℤ} {s s' : AcceptLoop} {hist ev : List AcceptEvent}
    (hagree : HostsAgree numHosts s) (h : LoopHead s hist) (hm : AcceptMove numHosts s s' ev)
    (hgoes : s'.status = .accepting) : LoopHead s' (hist ++ ev) := by
  have hmem : s.connections ∉ s.acceptedHosts.map HostConn.conn := by
    rw [List.mem_map]
    rintro ⟨host,hh,heq⟩
    have := hagree.older host hh
    omega
  cases hm with
  | acceptFailed => cases hgoes
  | ackFailed => cases hgoes
  | rejected =>
    refine ⟨h.counted,?_⟩
    intro conn
    have hnew : timesClosed [.closed s.connections] conn = if conn = s.connections then 1 else 0 := by
      by_cases hconn : conn = s.connections
      · simp [timesClosed,AcceptEvent.closedConn,hconn]
      · simp [timesClosed,AcceptEvent.closedConn,hconn,Ne.symm hconn]
    rw [timesClosed_append,h.closed,hnew]
    dsimp only
    by_cases hconn : conn = s.connections
    · subst hconn
      simp [hmem]
    · have hlt : conn < s.connections + 1 ↔ conn < s.connections := by omega
      simp [hconn,hlt]
  | registered rank m h0 hlt hnone =>
    constructor
    · simp [h.counted]
    · intro conn
      have hnew : timesClosed [.registered ⟨rank,s.connections⟩,.toConn s.connections m] conn = 0 :=
        rfl
      rw [timesClosed_append,h.closed,hnew]
      simp only [List.map_append,List.map_singleton,List.mem_append,List.mem_singleton]
      by_cases hconn : conn = s.connections
      · simp [hconn]
      · have hlt : conn < s.connections + 1 ↔ conn < s.connections := by omega
        simp [hconn,hlt]

theorem accept_invariant {numHosts : ℤ} {s : AcceptLoop} {hist : List AcceptEvent}
    (hr : Run (acceptMachine numHosts) s hist) :
    HostsAgree numHosts s ∧ (s.status = .accepting → LoopHead s hist) := by
  induction hr with
  | start hi =>
    cases hi
    refine ⟨.initial numHosts,fun _ => ⟨rfl,?_⟩⟩
    intro conn
    simp [timesClosed,AcceptLoop.initial]
  | next _ _ hs ih =>
    obtain ⟨hagree,hhead⟩ := ih
    obtain ⟨haccepting,_,hmove⟩ := acceptStep_move hs
    exact ⟨hagree.step hmove,(hhead haccepting).step hagree hmove⟩

/-- What the rest of the switch may rely on after the accept loop. -/
structure AllRegistered (numHosts : ℤ) (s : AcceptLoop) (hist : List AcceptEvent) : Prop where
  ranks : ∀ rank, rank ∈ s.hosts ↔ 0 ≤ rank ∧ rank < numHosts
  ownRank : ∀ (rank : ℤ) (host : HostConn), s.hosts[rank]? = some host → host.rank = rank
  /-- `accepted_hosts` holds the same hosts, each once. -/
  accepted : ∀ host, host ∈ s.acceptedHosts ↔ ∃ rank : ℤ, s.hosts[rank]? = some host
  acceptedOnce : s.acceptedHosts.Nodup
  distinct : ∀ (rank rank' : ℤ) (host host' : HostConn), s.hosts[rank]? = some host →
    s.hosts[rank']? = some host' → host.conn = host'.conn → rank = rank'
  /-- A connection that no host was registered with. -/
  rejected : ∀ conn < s.connections,
    (∀ (rank : ℤ) (host : HostConn), s.hosts[rank]? = some host → host.conn ≠ conn) →
    timesClosed hist conn = 1
  kept : ∀ (rank : ℤ) (host : HostConn), s.hosts[rank]? = some host →
    timesClosed hist host.conn = 0
  found : ∀ bitmap, ∀ expert ∈ decodeExpertIds bitmap numHosts.toNat,
    expert < 64 ∧ ∃ host, s.findHost expert = some host ∧ host.rank = expert
  shift : ∀ (rank : ℤ) (host : HostConn), s.hosts[rank]? = some host →
    0 ≤ host.rank ∧ host.rank < 64

theorem HostsAgree.cover {numHosts : ℤ} {s : AcceptLoop} (h : HostsAgree numHosts s)
    (hfull : numHosts ≤ s.acceptedHosts.length) (rank : ℤ) (h0 : 0 ≤ rank) (hlt : rank < numHosts) :
    ∃ host ∈ s.acceptedHosts, host.rank = rank := by
  have hsub : (s.acceptedHosts.map HostConn.rank).toFinset ⊆ Finset.Ico 0 numHosts := by
    intro r hr
    rw [List.mem_toFinset,List.mem_map] at hr
    obtain ⟨host,hh,rfl⟩ := hr
    exact Finset.mem_Ico.mpr (h.inRange host hh)
  have hcard : (Finset.Ico 0 numHosts).card ≤ (s.acceptedHosts.map HostConn.rank).toFinset.card := by
    rw [List.toFinset_card_of_nodup h.ranks,List.length_map,Int.card_Ico]
    omega
  have hall := Finset.eq_of_subset_of_card_le hsub hcard
  have hmem : rank ∈ (s.acceptedHosts.map HostConn.rank).toFinset := by
    rw [hall]
    exact Finset.mem_Ico.mpr ⟨h0,hlt⟩
  rwa [List.mem_toFinset,List.mem_map] at hmem

theorem allRegistered {numHosts : ℤ} (hmax : numHosts ≤ 64) {s : AcceptLoop}
    {hist : List AcceptEvent} (h : HostsAgree numHosts s) (hhead : LoopHead s hist)
    (hdone : numHosts ≤ s.i) : AllRegistered numHosts s hist := by
  have hfull : numHosts ≤ s.acceptedHosts.length := by
    rw [← hhead.counted]
    exact hdone
  have hranks : ∀ rank, rank ∈ s.hosts ↔ 0 ≤ rank ∧ rank < numHosts := by
    intro rank
    rw [Std.ExtTreeMap.mem_iff_isSome_getElem?,Option.isSome_iff_exists]
    constructor
    · rintro ⟨host,hentry⟩
      obtain ⟨hh,rfl⟩ := (h.entry _ _).mp hentry
      exact h.inRange host hh
    · rintro ⟨h0,hlt⟩
      obtain ⟨host,hh,heq⟩ := h.cover hfull rank h0 hlt
      exact ⟨host,(h.entry _ _).mpr ⟨hh,heq⟩⟩
  have hown : ∀ (rank : ℤ) (host : HostConn), s.hosts[rank]? = some host → host.rank = rank :=
    fun rank host hentry => ((h.entry rank host).mp hentry).2
  have hmem : ∀ (rank : ℤ) (host : HostConn), s.hosts[rank]? = some host →
      host ∈ s.acceptedHosts := fun rank host hentry => ((h.entry rank host).mp hentry).1
  refine ⟨hranks,hown,?_,h.ranks.of_map _,?_,?_,?_,?_,?_⟩
  · intro host
    constructor
    · exact fun hh => ⟨host.rank,(h.entry _ _).mpr ⟨hh,rfl⟩⟩
    · rintro ⟨rank,hentry⟩
      exact hmem rank host hentry
  · intro rank rank' host host' hentry hentry' hconn
    have heq := List.inj_on_of_nodup_map h.conns (hmem _ _ hentry) (hmem _ _ hentry') hconn
    rw [← hown _ _ hentry,← hown _ _ hentry',heq]
  · intro conn hlt hnone
    rw [hhead.closed,if_pos]
    refine ⟨hlt,?_⟩
    rw [List.mem_map]
    rintro ⟨host,hh,rfl⟩
    exact hnone host.rank host ((h.entry _ _).mpr ⟨hh,rfl⟩) rfl
  · intro rank host hentry
    rw [hhead.closed,if_neg]
    rintro ⟨-,hnot⟩
    exact hnot (List.mem_map_of_mem (hmem _ _ hentry))
  · intro bitmap expert hexpert
    have hlt := decodeExpertIds_lt hexpert
    refine ⟨by omega,?_⟩
    have hentry := (hranks expert).mpr ⟨by omega,by omega⟩
    rw [Std.ExtTreeMap.mem_iff_isSome_getElem?,Option.isSome_iff_exists] at hentry
    obtain ⟨host,hentry⟩ := hentry
    exact ⟨host,hentry,hown _ _ hentry⟩
  · intro rank host hentry
    have := h.inRange host (hmem _ _ hentry)
    omega

/-- At the head of the loop `i` counts the registered hosts, and the loop completes only with
every rank registered. -/
theorem hosts_registered {numHosts : ℤ} (hmax : numHosts ≤ 64) {s : AcceptLoop}
    {hist : List AcceptEvent} (hr : Run (acceptMachine numHosts) s hist)
    (hgoes : s.status = .accepting) :
    s.i = s.hosts.size ∧ (numHosts ≤ s.i → AllRegistered numHosts s hist) := by
  obtain ⟨hagree,hhead⟩ := accept_invariant hr
  refine ⟨?_,allRegistered hmax hagree (hhead hgoes)⟩
  rw [(hhead hgoes).counted,hagree.size]

def helloFrom (rank : U32) : Msg where
  header := { MsgHeader.new .hello 0 with srcRank := rank }
  payload := Bytes.empty

/-- A read that fails, a wrong message, a negative rank, host 1 twice, then host 0. -/
def sampleAttempts : List Attempt :=
  [.connected none 0 true,.connected (some ⟨MsgHeader.new .ack 0,Bytes.empty⟩) 0 true,
    .connected (some (helloFrom 0x80000000)) 0 true,.connected (some (helloFrom 1)) 0 true,
    .connected (some (helloFrom 1)) 0 true,.connected (some (helloFrom 0)) 0 true]

theorem hosts_registered_sample : ∃ (s : AcceptLoop) (hist : List AcceptEvent),
    Run (acceptMachine 2) s hist ∧ s.connections = 6 ∧ AllRegistered 2 s hist := by
  obtain ⟨s,hist,hrun,hfound⟩ := exists_run_of_replay (acceptMachine 2) (fun _ _ => true)
    AcceptLoop.initial sampleAttempts
    (fun s _ => decide (s.status = .accepting ∧ s.i = 2 ∧ s.connections = 6)) rfl
    (by decide +kernel)
  obtain ⟨hgoes,hi,hconnections⟩ := of_decide_eq_true hfound
  exact ⟨s,hist,hrun.run,hconnections,(hosts_registered (by decide) hrun.run hgoes).2 (by omega)⟩

variable {N : ℕ}

/-- The switch while it accepts hosts. -/
def AcceptLoop.toSwitch (s : AcceptLoop) : Switch N :=
  { Switch.initial with
    hosts := fun g => s.hosts.contains g
    conn := fun g => s.hosts.contains g
    opened := fun g => s.hosts.contains g }

theorem contains_insert_update (hosts : HostMap) (g : Fin N) (host : HostConn) :
    (fun g' : Fin N => (hosts.insert (g : ℤ) host).contains g') =
      Function.update (fun g' : Fin N => hosts.contains g') g true := by
  funext g'
  rw [Std.ExtTreeMap.contains_insert]
  by_cases heq : g' = g
  · subst heq
    simp
  · have hne : (g : ℤ) ≠ g' := fun h => heq (Fin.ext (by omega))
    rw [Function.update_of_ne heq]
    simp [mt Std.LawfulEqCmp.eq_of_compare hne]

/-- Each iteration that registers a host is an `accept` of the switch, the others change nothing:
as long as the loop goes on, the switch has reached the state that the loop describes. -/
theorem accept_refines {s : AcceptLoop} {hist : List AcceptEvent}
    (hr : Run (acceptMachine N) s hist) (hgoes : s.status = .accepting) :
    Run (switchMachine N) s.toSwitch [] := by
  induction hr with
  | start hi =>
    cases hi
    apply RunOn.start
    simp [AcceptLoop.toSwitch,AcceptLoop.initial,switchMachine,Switch.initial]
  | @next s s' hist ev a _ _ hs ih =>
    obtain ⟨haccepting,_,hmove⟩ := acceptStep_move hs
    have hrun := ih haccepting
    cases hmove with
    | acceptFailed => cases hgoes
    | ackFailed => cases hgoes
    | rejected => exact hrun
    | registered rank m h0 hlt hnone =>
      obtain ⟨g,rfl⟩ : ∃ g : Fin N, rank = g := ⟨⟨rank.toNat,by omega⟩,by simp [h0]⟩
      have hcontains : s.hosts.contains (g : ℤ) = false := by
        rw [Std.ExtTreeMap.contains_eq_isSome_getElem?,hnone]
        rfl
      have hinsert := contains_insert_update s.hosts g ⟨g,s.connections⟩
      have hstep : (switchMachine N).step s.toSwitch (.accept g) =
          some (AcceptLoop.toSwitch
            { i := s.i + 1
              hosts := s.hosts.insert g ⟨g,s.connections⟩
              acceptedHosts := s.acceptedHosts ++ [⟨g,s.connections⟩]
              connections := s.connections + 1
              status := s.status },[]) := by
        simp only [switchMachine,switchStep,AcceptLoop.toSwitch,hcontains,hinsert]
        rfl
      simpa using hrun.step hstep

end INA2A

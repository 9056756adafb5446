import INA2A.Host

/-! The whole system: hosts and one switch over reliable connections, each a pair of FIFO
channels.  No receive and no `sr_write` fails while a connection is open. -/
namespace INA2A

open ByteBuffers BitWords EventMachine

variable {N : ℕ}

/-- The command line of a host, and the shuffles its workload draws. -/
structure HostArgs (N : ℕ) where
  numTokens : ℕ
  numTokens_lt : numTokens < 2 ^ 31
  topk : ℤ
  windowSize : ℤ
  windowSize_ge : -2 ^ 31 ≤ windowSize
  windowSize_lt : windowSize < 2 ^ 31
  mode : LoopMode
  shuffle : ℕ → List ℕ
  shuffle_perm : ∀ i, (shuffle i).Perm (List.range N)

/-- At most 64 hosts, all started with `num_hosts = N` like the switch. -/
structure Config (N : ℕ) where
  args : Fin N → HostArgs N
  hosts_le : N ≤ 64

/-- `topk` after the two clamps of `main`. -/
def clampTopk (numHosts topk : ℤ) : ℤ :=
  let topk := if topk ≤ 0 then 1 else topk
  if numHosts < topk then numHosts else topk

def Config.workload (c : Config N) (h : Fin N) : List TokenDesc :=
  makeWorkload 1 (c.args h).numTokens h N (clampTopk N (c.args h).topk) (c.args h).shuffle

def Config.env (c : Config N) (h : Fin N) : HostEnv where
  rank := h
  workload := c.workload h
  windowSize := (c.args h).windowSize
  mode := (c.args h).mode

structure System (N : ℕ) where
  host : Fin N → Host
  switch : Switch N
  /-- Written by a host and not yet read by the switch. -/
  toSwitch : Fin N → List Msg
  /-- Written by the switch and not yet read by the host. -/
  toHost : Fin N → List Msg

def System.initial (c : Config N) : System N where
  host h := Host.initial (c.env h)
  switch := Switch.initial
  toSwitch _ := []
  toHost _ := []

inductive Action (N : ℕ)
  | accept (g : Fin N)
  | start (h : Fin N)
  | host (h : Fin N) (a : HostAction)
  | write (h : Fin N)
  | receive (h : Fin N)
  | reader (h : Fin N) (ts : U64)
  | main

def System.setHost (s : System N) (h : Fin N) (v : Host) : System N :=
  { s with host := Function.update s.host h v }

/-- The host's `sr_write` towards the switch returns. -/
def hostWrite (c : Config N) (s : System N) (h : Fin N) : Option (System N × List (Event N)) :=
  match (s.host h).sending with
  | .writing m =>
    match srWrite m with
    | .error f => some (s.setHost h (writeFailed (c.env h) (s.host h)),[.rejected f])
    | .ok frame => some ({ s.setHost h (wroteMsg (s.host h)) with
        toSwitch := Function.update s.toSwitch h (s.toSwitch h ++ [frame]) },[.toSwitch h frame])
  | _ => none

/-- The host's `sr_read` returns with the next message of the switch. -/
def hostReceive (c : Config N) (s : System N) (h : Fin N) : Option (System N × List (Event N)) :=
  match (s.host h).reading, s.toHost h with
  | .reading, frame::rest =>
    if (s.host h).mayRead (c.env h) then
      let s := { s with toHost := Function.update s.toHost h rest }
      match receive frame with
      | .error f => some (s.setHost h (readFailed (c.env h) (s.host h)),[.rejected f])
      | .ok m => some (s.setHost h { s.host h with reading := .got m },[])
    else none
  | _, _ => none

/-- A step of a switch reader, given its connection: a receive takes the next message, or
fails once the connection is closed; an `sr_write` succeeds unless its checks fail. -/
def systemReader (s : System N) (h : Fin N) (ts : U64) : Option (System N × List (Event N)) :=
  match s.switch.reader h with
  | .reading =>
    match s.toSwitch h with
    | frame::rest =>
      let s := { s with toSwitch := Function.update s.toSwitch h rest }
      match receive frame with
      | .error f => (readerStep s.switch h .recvFail).map fun r =>
          ({ s with switch := r.1 },.rejected f::r.2)
      | .ok m => (readerStep s.switch h (.recv m)).map fun r => ({ s with switch := r.1 },r.2)
    | [] =>
      if s.switch.opened h then none
      else (readerStep s.switch h .recvFail).map fun r => ({ s with switch := r.1 },r.2)
  | p =>
    match s.switch.writing h, sendTarget h p with
    | some stamp, some g =>
      match srWrite (sendMsg stamp p) with
      | .error f => (readerStep s.switch h (.sent false)).map fun r =>
          ({ s with switch := r.1 },.rejected f::r.2)
      | .ok frame => (readerStep s.switch h (.sent true)).map fun r =>
          ({ s with switch := r.1, toHost := Function.update s.toHost g (s.toHost g ++ [frame]) },
            r.2)
    | _, _ => (readerStep s.switch h (.go ts)).map fun r => ({ s with switch := r.1 },r.2)

/-- One step of the system.  A host runs its loops once the switch has accepted it. -/
def systemStep (c : Config N) (s : System N) : Action N → Option (System N × List (Event N))
  | .accept g => (switchStep s.switch (.accept g)).map fun r => ({ s with switch := r.1 },r.2)
  | .start h => (switchStep s.switch (.start h)).map fun r => ({ s with switch := r.1 },r.2)
  | .host h a =>
    if s.switch.hosts h then
      (hostStep h (c.env h) (s.host h) a).map fun r => (s.setHost h r.1,r.2)
    else none
  | .write h => hostWrite c s h
  | .receive h => hostReceive c s h
  | .reader h ts => systemReader s h ts
  | .main => (switchStep s.switch .main).map fun r => ({ s with switch := r.1 },r.2)

theorem systemStep_host {c : Config N} {s s' : System N} {h : Fin N} {a : HostAction}
    {ev : List (Event N)} (hs : systemStep c s (.host h a) = some (s',ev)) :
    ∃ v, hostStep h (c.env h) (s.host h) a = some (v,ev) ∧ s' = s.setHost h v := by
  simp only [systemStep] at hs
  split_ifs at hs
  obtain ⟨⟨v,ev'⟩,hr,heq⟩ := Option.map_eq_some_iff.mp hs
  cases heq
  exact ⟨v,hr,rfl⟩

def systemMachine (c : Config N) : Machine (System N) (Action N) (Event N) where
  init s := s = System.initial c
  step := systemStep c

end INA2A

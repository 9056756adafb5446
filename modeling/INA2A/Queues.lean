import INA2A.Threads

/-! `BlockingQueue` under any number of threads: every locked section is a step, and a thread
that waits in `pop` or `try_pop_for` goes on at any later time its predicate allows. -/
namespace INA2A

open EventMachine

variable {α τ : Type}

def BlockingQueue.ready (q : BlockingQueue α) : Bool := q.closed || !q.items.isEmpty

/-- `try_pop`, and what `pop` and `try_pop_for` do after their wait. -/
def BlockingQueue.tryPop (q : BlockingQueue α) : Option α × BlockingQueue α :=
  match q.items with
  | [] => (none,q)
  | a::rest => (some a,{ q with items := rest })

inductive Removal
  | pop | tryPop | tryPopFor
  deriving DecidableEq, Repr

def Removal.waits : Removal → Bool
  | .tryPop => false
  | _ => true

/-- A queue and the threads that wait in a removal. -/
structure SharedQueue (α τ : Type) where
  queue : BlockingQueue α
  waiting : τ → Option Removal

inductive QueueAction (α τ : Type)
  | push (t : τ) (a : α)
  | close (t : τ)
  | call (t : τ) (r : Removal)
  | resume (t : τ)
  | timeout (t : τ)

/-- A removal that returns `false` returns no item. -/
inductive QueueEvent (α τ : Type)
  | pushed (t : τ) (a : α)
  | closed (t : τ)
  | returned (t : τ) (r : Removal) (item : Option α)
  deriving DecidableEq

def QueueEvent.isClosed : QueueEvent α τ → Bool
  | .closed _ => true
  | _ => false

def QueueEvent.returnedItem : QueueEvent α τ → Option α
  | .returned _ _ item => item
  | _ => none

def QueueEvent.pushedItem : QueueEvent α τ → Option α
  | .pushed _ a => some a
  | _ => none

def returned (hist : List (QueueEvent α τ)) : List α := hist.filterMap QueueEvent.returnedItem

def pushes (hist : List (QueueEvent α τ)) : List α := hist.filterMap QueueEvent.pushedItem

/-- The items pushed before the first close, in order. -/
def pushedBeforeClose (hist : List (QueueEvent α τ)) : List α :=
  pushes (hist.takeWhile fun e => !e.isClosed)

theorem returned_append (hist ev : List (QueueEvent α τ)) :
    returned (hist ++ ev) = returned hist ++ returned ev := List.filterMap_append

theorem pushedBeforeClose_append (hist ev : List (QueueEvent α τ)) :
    pushedBeforeClose (hist ++ ev) = pushedBeforeClose hist ++
      if hist.any QueueEvent.isClosed then [] else pushedBeforeClose ev := by
  induction hist with
  | nil => rfl
  | cons e hist ih =>
    cases e with
    | closed t => rfl
    | pushed t a => exact congrArg (a::·) ih
    | returned t r item => exact ih

theorem pushedBeforeClose_subset (hist : List (QueueEvent α τ)) :
    pushedBeforeClose hist ⊆ pushes hist :=
  ((List.takeWhile_sublist _).filterMap _).subset

variable [DecidableEq τ]

def SharedQueue.finish (s : SharedQueue α τ) (t : τ) (r : Removal) :
    SharedQueue α τ × List (QueueEvent α τ) :=
  ({ queue := s.queue.tryPop.2, waiting := Function.update s.waiting t none },
    [.returned t r s.queue.tryPop.1])

def queueStep (s : SharedQueue α τ) : QueueAction α τ → Option (SharedQueue α τ × List (QueueEvent α τ))
  | .push t a =>
    if s.waiting t = none then some ({ s with queue := s.queue.push a },[.pushed t a]) else none
  | .close t =>
    if s.waiting t = none then some ({ s with queue := s.queue.close },[.closed t]) else none
  | .call t r =>
    if s.waiting t = none then
      if r.waits && !s.queue.ready then
        some ({ s with waiting := Function.update s.waiting t (some r) },[])
      else some (s.finish t r)
    else none
  | .resume t =>
    match s.waiting t with
    | some r => if s.queue.ready then some (s.finish t r) else none
    | none => none
  | .timeout t => if s.waiting t = some .tryPopFor then some (s.finish t .tryPopFor) else none

def queueMachine (α τ : Type) [DecidableEq τ] :
    Machine (SharedQueue α τ) (QueueAction α τ) (QueueEvent α τ) where
  init s := s = ⟨BlockingQueue.empty,fun _ => none⟩
  step := queueStep

/-- A locked section pushes, closes, starts a wait or removes; `pop` removes only when its
predicate holds. -/
inductive SharedMove (s : SharedQueue α τ) : SharedQueue α τ → List (QueueEvent α τ) → Prop
  | push (t : τ) (a : α) : SharedMove s { s with queue := s.queue.push a } [.pushed t a]
  | close (t : τ) : SharedMove s { s with queue := s.queue.close } [.closed t]
  | wait (t : τ) (r : Removal) :
      SharedMove s { s with waiting := Function.update s.waiting t (some r) } []
  | remove (t : τ) (r : Removal) : (r = .pop → s.queue.ready = true) →
      SharedMove s (s.finish t r).1 (s.finish t r).2

theorem queueStep_move {s s' : SharedQueue α τ} {a : QueueAction α τ} {ev : List (QueueEvent α τ)}
    (hs : queueStep s a = some (s',ev)) : SharedMove s s' ev := by
  cases a with
  | push t a =>
    simp only [queueStep] at hs
    split_ifs at hs
    obtain ⟨rfl,rfl⟩ := Prod.mk.inj (Option.some.inj hs)
    exact .push t a
  | close t =>
    simp only [queueStep] at hs
    split_ifs at hs
    obtain ⟨rfl,rfl⟩ := Prod.mk.inj (Option.some.inj hs)
    exact .close t
  | call t r =>
    simp only [queueStep] at hs
    split_ifs at hs with hfree hwait
    · obtain ⟨rfl,rfl⟩ := Prod.mk.inj (Option.some.inj hs)
      exact .wait t r
    · obtain ⟨rfl,rfl⟩ := Prod.mk.inj (Option.some.inj hs)
      refine .remove t r ?_
      rintro rfl
      simpa [Removal.waits] using hwait
  | resume t =>
    simp only [queueStep] at hs
    split at hs
    · split_ifs at hs with hready
      obtain ⟨rfl,rfl⟩ := Prod.mk.inj (Option.some.inj hs)
      exact .remove t _ fun _ => hready
    · cases hs
  | timeout t =>
    simp only [queueStep] at hs
    split_ifs at hs
    obtain ⟨rfl,rfl⟩ := Prod.mk.inj (Option.some.inj hs)
    exact .remove t .tryPopFor fun h => nomatch h

/-- Nothing is lost, repeated or reordered. -/
structure Delivered (s : SharedQueue α τ) (hist : List (QueueEvent α τ)) : Prop where
  items : returned hist ++ s.queue.items = pushedBeforeClose hist
  closed : s.queue.closed = hist.any QueueEvent.isClosed

theorem push_items (q : BlockingQueue α) (a : α) :
    (q.push a).items = q.items ++ (if q.closed then [] else [a]) ∧ (q.push a).closed = q.closed := by
  unfold BlockingQueue.push
  split_ifs <;> simp

theorem tryPop_items (q : BlockingQueue α) :
    q.tryPop.1.toList ++ q.tryPop.2.items = q.items ∧ q.tryPop.2.closed = q.closed := by
  unfold BlockingQueue.tryPop
  cases hq : q.items with
  | nil => simp [hq]
  | cons a rest => simp

theorem SharedMove.delivered {s s' : SharedQueue α τ} {hist ev : List (QueueEvent α τ)}
    (hm : SharedMove s s' ev) (hd : Delivered s hist) : Delivered s' (hist ++ ev) := by
  obtain ⟨hitems,hclosed⟩ := hd
  cases hm with
  | push t a =>
    obtain ⟨hpush,hflag⟩ := push_items s.queue a
    constructor
    · rw [returned_append,pushedBeforeClose_append,← hclosed,← hitems,hpush,List.append_assoc,
        List.append_assoc]
      rfl
    · rw [List.any_append,← hclosed]
      exact hflag.trans (Bool.or_false _).symm
  | close t =>
    constructor
    · rw [returned_append,pushedBeforeClose_append,← hitems,List.append_assoc]
      change _ = _ ++ if _ then [] else []
      rw [ite_self,List.append_nil]
      rfl
    · rw [List.any_append]
      exact (Bool.or_true _).symm
  | wait t r =>
    rw [List.append_nil]
    exact ⟨hitems,hclosed⟩
  | remove t r _ =>
    obtain ⟨htaken,hflag⟩ := tryPop_items s.queue
    have hitem : ∀ item : Option α,
        returned [QueueEvent.returned t r item] = item.toList := fun item => by
      cases item <;> rfl
    constructor
    · rw [returned_append,pushedBeforeClose_append,← hitems,← htaken,SharedQueue.finish,hitem]
      change _ = _ ++ if _ then [] else []
      rw [ite_self,List.append_nil,List.append_assoc]
    · rw [List.any_append,← hclosed]
      exact hflag.trans (Bool.or_false _).symm

theorem run_delivered {s : SharedQueue α τ} {hist : List (QueueEvent α τ)}
    (hr : Run (queueMachine α τ) s hist) : Delivered s hist := by
  induction hr with
  | start hi =>
    subst hi
    exact ⟨rfl,rfl⟩
  | next _ _ hs ih => exact (queueStep_move hs).delivered ih

theorem SharedMove.pop_false {s s' : SharedQueue α τ} {ev : List (QueueEvent α τ)} {t : τ}
    (hm : SharedMove s s' ev) (he : .returned t .pop none ∈ ev) :
    ev = [.returned t .pop none] ∧ s.queue.closed = true ∧ s.queue.items = [] := by
  cases hm with
  | push u a => simp at he
  | close u => simp at he
  | wait u r => simp at he
  | remove u r hready =>
    change _ ∈ [QueueEvent.returned u r s.queue.tryPop.1] at he
    obtain ⟨rfl,rfl,hnone⟩ := QueueEvent.returned.inj (List.mem_singleton.mp he)
    have hempty : s.queue.items = [] := by
      cases hq : s.queue.items with
      | nil => rfl
      | cons a rest => simp [BlockingQueue.tryPop,hq] at hnone
    have hclosed : s.queue.closed = true := by
      simpa [BlockingQueue.ready,hempty] using hready rfl
    refine ⟨?_,hclosed,hempty⟩
    rw [SharedQueue.finish,← hnone]

/-- Delivery across close, for any threads and any order of their locked sections. -/
theorem queue_delivers {s : SharedQueue α τ} {hist : List (QueueEvent α τ)}
    (hr : Run (queueMachine α τ) s hist) :
    returned hist ++ s.queue.items = pushedBeforeClose hist ∧
    (∀ pre t post, hist = pre ++ .returned t .pop none::post →
      (∃ u, .closed u ∈ pre) ∧ returned pre = pushedBeforeClose hist) ∧
    ∀ pre t post, hist = pre ++ .closed t::post → ∀ a ∈ pushes post, a ∉ pushes pre →
      a ∉ returned hist := by
  have hitems := (run_delivered hr).items
  refine ⟨hitems,?_,?_⟩
  · intro pre t post heq
    obtain ⟨s₁,k,a,s₂,ev₁,ev₂,hr₁,-,hs₁,rfl⟩ := hr.fired pre _ post heq
    obtain ⟨hev,hclosed,hempty⟩ := (queueStep_move hs₁).pop_false
      (List.mem_append_right ev₁ List.mem_cons_self)
    obtain ⟨rfl,-⟩ : ev₁ = [] ∧ ev₂ = [] := by
      have hlen := congrArg List.length hev
      rw [List.length_append,List.length_cons,List.length_singleton] at hlen
      exact ⟨List.length_eq_zero_iff.mp (by omega),List.length_eq_zero_iff.mp (by omega)⟩
    have hd := run_delivered hr₁
    rw [List.append_nil] at heq ⊢
    have hany : k.any QueueEvent.isClosed = true := hd.closed.symm.trans hclosed
    refine ⟨?_,?_⟩
    · obtain ⟨e,he,hclosing⟩ := List.any_eq_true.mp hany
      cases e with
      | closed u => exact ⟨u,he⟩
      | pushed u a => cases hclosing
      | returned u r item => cases hclosing
    · rw [heq,pushedBeforeClose_append,if_pos hany,← hd.items,hempty,List.append_nil,List.append_nil]
  · intro pre t post heq a _ hnot hmem
    have hbefore : a ∈ pushedBeforeClose hist := by
      rw [← hitems]
      exact List.mem_append_left _ hmem
    have hpre : pushedBeforeClose hist = pushedBeforeClose pre := by
      rw [heq,pushedBeforeClose_append]
      change _ ++ (if _ then [] else []) = _
      rw [ite_self,List.append_nil]
    rw [hpre] at hbefore
    exact hnot (pushedBeforeClose_subset pre hbefore)

/-- A consumer that waits in `pop` gets the item pushed before the close, not the one after. -/
def closingRun : List (QueueAction ℕ Bool) :=
  [.call true .pop,.push false 5,.close false,.push false 6,.resume true,.call true .pop]

theorem queue_delivers_sample : ∃ (s : SharedQueue ℕ Bool) (hist : List (QueueEvent ℕ Bool)),
    Run (queueMachine ℕ Bool) s hist ∧
    hist = [.pushed false 5,.closed false,.pushed false 6,.returned true .pop (some 5),
      .returned true .pop none] ∧
    returned hist ++ s.queue.items = pushedBeforeClose hist ∧
    (∃ u, .closed u ∈ hist.take 4) ∧ returned (hist.take 4) = pushedBeforeClose hist ∧
    6 ∉ returned hist := by
  obtain ⟨s,hist,hrun,hp⟩ := exists_run_of_replay (queueMachine ℕ Bool) (fun _ _ => true)
    ⟨BlockingQueue.empty,fun _ => none⟩ closingRun
    (fun _ hist => hist = [.pushed false 5,.closed false,.pushed false 6,.returned true .pop (some 5),
      .returned true .pop none]) rfl (by decide +kernel)
  obtain rfl := of_decide_eq_true hp
  obtain ⟨hitems,hended,hlate⟩ := queue_delivers hrun.run
  obtain ⟨hclosed,hall⟩ := hended [.pushed false 5,.closed false,.pushed false 6,
    .returned true .pop (some 5)] true [] rfl
  exact ⟨s,_,hrun.run,rfl,hitems,hclosed,hall,
    hlate [.pushed false 5] false _ rfl 6 (by decide) (by decide)⟩

inductive QueueOp (q : BlockingQueue α) : BlockingQueue α → Prop
  | skip : QueueOp q q
  | push (a : α) : QueueOp q (q.push a)
  | close : QueueOp q q.close
  | tryPop : QueueOp q q.tryPop.2

theorem QueueOp.ofItems {q : BlockingQueue α} {a : α} {rest : List α} (hq : q.items = a::rest) :
    QueueOp q { q with items := rest } := by
  have hpop := QueueOp.tryPop (q := q)
  rwa [BlockingQueue.tryPop,hq] at hpop

/-- A step of a host applies at most one operation to each of its queues. -/
structure QueuesMove (v v' : Host) : Prop where
  send : QueueOp v.sendQueue v'.sendQueue
  compute : QueueOp v.computeQueue v'.computeQueue

variable {N : ℕ} {g : Fin N} {env : HostEnv} {v v' : Host} {ev : List (Event N)}

theorem QueuesMove.of_same (hsend : v'.sendQueue = v.sendQueue)
    (hcompute : v'.computeQueue = v.computeQueue) : QueuesMove v v' := by
  constructor
  · rw [hsend]
    exact .skip
  · rw [hcompute]
    exact .skip

theorem QueuesMove.before {w : Host} (hm : QueuesMove w v') (hsend : w.sendQueue = v.sendQueue)
    (hcompute : w.computeQueue = v.computeQueue) : QueuesMove v v' :=
  ⟨hsend ▸ hm.send,hcompute ▸ hm.compute⟩

theorem pushSend_queues {m : Msg} (hs : pushSend g v m = (v',ev)) : QueuesMove v v' := by
  obtain ⟨rfl,-⟩ := Prod.mk.inj hs
  exact ⟨.push m,.skip⟩

theorem pushCompute_queues {t : ComputeTask} (hs : pushCompute v t = (v',ev)) : QueuesMove v v' := by
  obtain ⟨rfl,-⟩ := Prod.mk.inj hs
  exact ⟨.skip,.push t⟩

theorem tickStep_queues {now : ℕ} {ts : U64} (hs : tickStep env v now ts = some v') :
    QueuesMove v v' := by
  have htick : (controlTick env v now ts).sendQueue = v.sendQueue ∧
      (controlTick env v now ts).computeQueue = v.computeQueue := by
    unfold controlTick
    split_ifs <;> exact ⟨rfl,rfl⟩
  unfold tickStep at hs
  split_ifs at hs
  split at hs <;> cases hs
  · exact .of_same htick.1 htick.2
  · exact .of_same rfl rfl
  · exact .of_same htick.1 htick.2

theorem controlPush_queues {ts : U64} (hs : controlPush g env v ts = some (v',ev)) :
    QueuesMove v v' := by
  unfold controlPush at hs
  split at hs
  · dsimp only at hs
    split at hs
    · cases hs
      exact .of_same rfl rfl
    · exact (pushSend_queues (Option.some.inj hs)).before rfl rfl
  · cases hs
    exact .of_same rfl rfl
  · cases hs
    exact .of_same rfl rfl
  · exact (pushCompute_queues (Option.some.inj hs)).before rfl rfl
  · exact (pushSend_queues (Option.some.inj hs)).before rfl rfl
  · cases hs

theorem computeStep_queues {ts : U64} (hs : computeStep g env v ts = some (v',ev)) :
    QueuesMove v v' := by
  unfold computeStep at hs
  split at hs
  · split at hs
    · split at hs
      · cases hs
        exact .of_same rfl rfl
      · rename_i hq
        cases hs
        exact ⟨.skip,.ofItems hq⟩
    · cases hs
      exact .of_same rfl rfl
  · split at hs
    · split_ifs at hs
      cases hs
      exact .of_same rfl rfl
    · rename_i hq
      cases hs
      exact ⟨.skip,.ofItems hq⟩
  · split_ifs at hs
    · cases hs
      unfold processComputeTask
      split
      · split <;> exact .of_same rfl rfl
      · exact .of_same rfl rfl
    · cases hs
      exact .of_same rfl rfl
  · exact (pushSend_queues (Option.some.inj hs)).before rfl rfl
  · cases hs

theorem sendStep_queues (hs : sendStep env v = some v') : QueuesMove v v' := by
  unfold sendStep at hs
  split at hs
  · split at hs
    · cases hs
      exact .of_same rfl rfl
    · split at hs
      · rename_i hq
        split_ifs at hs <;> cases hs
        · exact ⟨.ofItems hq,.skip⟩
        · exact .of_same rfl rfl
      · cases hs
        exact .of_same rfl rfl
      · cases hs
  · split at hs
    · split_ifs at hs
      cases hs
      exact .of_same rfl rfl
    · rename_i hq
      cases hs
      exact ⟨.ofItems hq,.skip⟩
  · cases hs

theorem leaveRead_queues (env : HostEnv) (w : Host) :
    (leaveRead env w).sendQueue = w.sendQueue ∧ (leaveRead env w).computeQueue = w.computeQueue := by
  unfold leaveRead
  split <;> exact ⟨rfl,rfl⟩

theorem handleIncomingMessage_queues (m : Msg) (now : ℕ) :
    QueuesMove v (handleIncomingMessage (N:=N) v m now).1 := by
  have hupdate : ∀ g f, QueuesMove v (updateToken v g f) := by
    intro g f
    unfold updateToken
    split <;> exact .of_same rfl rfl
  unfold handleIncomingMessage
  split
  · exact hupdate _ _
  · exact ⟨.skip,.push _⟩
  · exact hupdate _ _
  · exact hupdate _ _
  · exact ⟨.close,.close⟩
  · exact .of_same rfl rfl

theorem readStep_queues {now : ℕ} (hs : readStep env v now = some (v',ev)) : QueuesMove v v' := by
  unfold readStep at hs
  split at hs
  · split at hs <;> cases hs <;> exact .of_same rfl rfl
  · split at hs <;> cases hs
    exact .of_same (leaveRead_queues env v).1 (leaveRead_queues env v).2
  · rename_i m _
    have hm := handleIncomingMessage_queues (N:=N) (v:=v) m now
    cases hs
    split_ifs
    · obtain ⟨hsend,hcompute⟩ := leaveRead_queues env (handleIncomingMessage (N:=N) v m now).1
      exact ⟨hsend ▸ hm.send,hcompute ▸ hm.compute⟩
    · exact ⟨hm.send,hm.compute⟩
  · cases hs

theorem hostStep_queues {a : HostAction} (hs : hostStep g env v a = some (v',ev)) :
    QueuesMove v v' := by
  cases hostStep_move hs with
  | tick _ hw => exact tickStep_queues hw
  | push _ hw => exact controlPush_queues hw
  | compute _ hw => exact computeStep_queues hw
  | send _ hw => exact sendStep_queues hw
  | read _ hw => exact readStep_queues hw

theorem systemStep_queues {c : Config N} {s s' : System N} {a : Action N}
    (hs : systemStep c s a = some (s',ev)) (h : Fin N) : QueuesMove (s.host h) (s'.host h) := by
  rcases systemStep_host_or hs h with hsame | hc
  · rw [hsame]
    exact .of_same rfl rfl
  · generalize s'.host h = v at hc
    cases hc with
    | loop hr => exact hostStep_queues hr
    | wrote m => exact .of_same rfl rfl
    | writeFailed f => exact ⟨.close,.close⟩
    | got m _ => exact .of_same rfl rfl
    | readFailed f _ => exact ⟨.close,.close⟩

/-- The queue as a thread finds it when nobody waits. -/
def idleQueue (q : BlockingQueue α) : SharedQueue α Unit := ⟨q,fun _ => none⟩

theorem QueueOp.run {q q' : BlockingQueue α} {hist : List (QueueEvent α Unit)} (ho : QueueOp q q')
    (hr : Run (queueMachine α Unit) (idleQueue q) hist) :
    ∃ hist', Run (queueMachine α Unit) (idleQueue q') hist' := by
  cases ho with
  | skip => exact ⟨hist,hr⟩
  | push a => exact ⟨_,hr.step (a := .push () a) rfl⟩
  | close => exact ⟨_,hr.step (a := .close ()) rfl⟩
  | tryPop =>
    have hfinish : queueStep (idleQueue q) (.call () .tryPop) =
        some (idleQueue q.tryPop.2,[.returned () .tryPop q.tryPop.1]) := by
      simp [queueStep,idleQueue,Removal.waits,SharedQueue.finish]
    exact ⟨_,hr.step (a := .call () .tryPop) hfinish⟩

/-- Both queues of a host go through runs of `BlockingQueue`, whatever the system does. -/
theorem run_queues {c : Config N} {s : System N} {hist : List (Event N)}
    (hr : Run (systemMachine c) s hist) (h : Fin N) :
    (∃ sends, Run (queueMachine Msg Unit) (idleQueue (s.host h).sendQueue) sends) ∧
    ∃ tasks, Run (queueMachine ComputeTask Unit) (idleQueue (s.host h).computeQueue) tasks := by
  induction hr with
  | start hi =>
    subst hi
    exact ⟨⟨[],.start rfl⟩,[],.start rfl⟩
  | next _ _ hs ih =>
    obtain ⟨⟨sends,hsends⟩,tasks,htasks⟩ := ih
    obtain ⟨hsend,hcompute⟩ := systemStep_queues hs h
    exact ⟨hsend.run hsends,hcompute.run htasks⟩

end INA2A

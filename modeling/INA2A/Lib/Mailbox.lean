import INA2A.Lib.Machine

/-! A mailbox with room for one message.  A writer calls with a message, posts it once what was
posted before has arrived, and returns; the reader takes out what has arrived.  A call may also
fail, before or after its message was posted. -/
namespace Mailbox

open EventMachine

inductive Status (M : Type)
  | idle
  | calling (m : M)
  | posted (m : M)

/-- Writers are of type `W`, messages of type `M`. -/
structure State (W M : Type) where
  status : W → Status M
  /-- Everything that was ever posted, in order. -/
  posted : List (W × M)
  /-- How much of that has arrived, and how much of that has been taken out. -/
  arrived : ℕ
  taken : ℕ

/-- What can be seen from outside; a reader makes an `R` of a message. -/
inductive Visible (W M R : Type)
  | called (w : W) (m : M)
  | returned (w : W) (m : M) (ok : Bool)
  | read (r : R)

variable {W M R : Type} [DecidableEq W]

def State.initial : State W M where
  status _ := .idle
  posted := []
  arrived := 0
  taken := 0

def State.setStatus (s : State W M) (w : W) (q : Status M) : State W M :=
  { s with status := Function.update s.status w q }

@[simp] theorem State.setStatus_posted (s : State W M) (w : W) (q : Status M) :
    (s.setStatus w q).posted = s.posted := rfl
@[simp] theorem State.setStatus_arrived (s : State W M) (w : W) (q : Status M) :
    (s.setStatus w q).arrived = s.arrived := rfl
@[simp] theorem State.setStatus_taken (s : State W M) (w : W) (q : Status M) :
    (s.setStatus w q).taken = s.taken := rfl

/-- `accepts` says which messages can be posted at all, `reads` what is read of a message. -/
inductive Move (accepts : M → Prop) (reads : M → Option R) (s : State W M) :
    List (Visible W M R) → State W M → Prop
  | call (w : W) (m : M) : s.status w = .idle →
      Move accepts reads s [.called w m] (s.setStatus w (.calling m))
  | post (w : W) (m : M) : s.status w = .calling m → accepts m → s.arrived = s.posted.length →
      Move accepts reads s [] { s.setStatus w (.posted m) with posted := s.posted ++ [(w,m)] }
  | arrive : s.arrived < s.posted.length → s.arrived = s.taken →
      Move accepts reads s [] { s with arrived := s.arrived + 1 }
  | succeed (w : W) (m : M) : s.status w = .posted m → s.arrived = s.posted.length →
      Move accepts reads s [.returned w m true] (s.setStatus w .idle)
  | fail (w : W) (m : M) : s.status w = .calling m ∨ s.status w = .posted m →
      Move accepts reads s [.returned w m false] (s.setStatus w .idle)
  | read (w : W) (m : M) (r : R) : s.taken < s.arrived → s.posted[s.taken]? = some (w,m) →
      reads m = some r → Move accepts reads s [.read r] { s with taken := s.taken + 1 }

/-- The messages that writer `w` has called with. -/
def callsOf (w : W) (tr : List (Visible W M R)) : List M :=
  tr.filterMap fun
    | .called v m => if v = w then some m else none
    | _ => none

/-- The messages whose call by `w` has returned true. -/
def sentBy (w : W) (tr : List (Visible W M R)) : List M :=
  tr.filterMap fun
    | .returned v m ok => if v = w ∧ ok = true then some m else none
    | _ => none

omit [DecidableEq W] in
def readsOf (tr : List (Visible W M R)) : List R :=
  tr.filterMap fun
    | .read r => some r
    | _ => none

/-- What is there of one writer. -/
def ofWriter (w : W) (l : List (W × M)) : List M :=
  l.filterMap fun x => if x.1 = w then some x.2 else none

section append

variable (w : W) (tr tr' : List (Visible W M R)) (l l' : List (W × M))

@[simp] theorem callsOf_append : callsOf w (tr ++ tr') = callsOf w tr ++ callsOf w tr' := by
  simp [callsOf]
@[simp] theorem sentBy_append : sentBy w (tr ++ tr') = sentBy w tr ++ sentBy w tr' := by
  simp [sentBy]
omit [DecidableEq W] in
@[simp] theorem readsOf_append : readsOf (tr ++ tr') = readsOf tr ++ readsOf tr' := by
  simp [readsOf]
@[simp] theorem ofWriter_append : ofWriter w (l ++ l') = ofWriter w l ++ ofWriter w l' := by
  simp [ofWriter]

end append

/-- How the calls of one writer, its posts and its successes fit together: each is among the
one before it, in order. -/
inductive InOrder (calls posts sent : List M) : Status M → Prop
  | idle : List.Sublist posts calls → List.Sublist sent posts → InOrder calls posts sent .idle
  | calling (before : List M) (m : M) : calls = before ++ [m] → List.Sublist posts before →
      List.Sublist sent posts → InOrder calls posts sent (.calling m)
  | posted (m : M) : List.Sublist posts calls → List.Sublist (sent ++ [m]) posts →
      InOrder calls posts sent (.posted m)

structure Delivers (reads : M → Option R) (s : State W M) (tr : List (Visible W M R)) : Prop where
  /-- What has been read is what was posted, in order. -/
  read : (s.posted.take s.taken).map (fun x => reads x.2) = (readsOf tr).map some
  taken : s.taken ≤ s.arrived ∧ s.arrived ≤ s.taken + 1
  arrived : s.arrived ≤ s.posted.length ∧ s.posted.length ≤ s.arrived + 1
  order : ∀ w, InOrder (callsOf w tr) (ofWriter w s.posted) (sentBy w tr) (s.status w)
  /-- What a writer knows to be sent has arrived. -/
  sent : ∀ w, List.Sublist (sentBy w tr) (ofWriter w (s.posted.take s.arrived))

variable {accepts : M → Prop} {reads : M → Option R} {s s' : State W M}
  {tr ls : List (Visible W M R)}

theorem Delivers.initial : Delivers reads (State.initial : State W M) [] :=
  ⟨rfl,⟨le_rfl,Nat.zero_le _⟩,⟨le_rfl,Nat.zero_le _⟩,fun _ => .idle (.refl _) (.refl _),
    fun _ => .refl _⟩

theorem Delivers.writer (hd : Delivers reads s tr) {w : W} {q : Status M} {l : List (W × M)}
    (hother : ∀ v, v ≠ w → callsOf v ls = [] ∧ ofWriter v l = [] ∧ sentBy v ls = [])
    (hself : InOrder (callsOf w tr ++ callsOf w ls) (ofWriter w s.posted ++ ofWriter w l)
      (sentBy w tr ++ sentBy w ls) q) (v : W) :
    InOrder (callsOf v (tr ++ ls)) (ofWriter v (s.posted ++ l)) (sentBy v (tr ++ ls))
      ((s.setStatus w q).status v) := by
  by_cases hv : v = w
  · subst hv
    simpa [State.setStatus] using hself
  · obtain ⟨hcalls,hposted,hsent⟩ := hother v hv
    simpa [State.setStatus,hv,hcalls,hposted,hsent] using hd.order v

theorem Delivers.call (hd : Delivers reads s tr) {w : W} {m : M} (hst : s.status w = .idle) :
    Delivers reads (s.setStatus w (.calling m)) (tr ++ [.called w m]) := by
  have horder := hd.order w
  rw [hst] at horder
  refine ⟨by simpa [readsOf] using hd.read,hd.taken,hd.arrived,fun v => ?_,
    fun v => by simpa [sentBy] using hd.sent v⟩
  rw [← List.append_nil (State.posted _)]
  refine hd.writer (fun v hv => by simp [callsOf,ofWriter,sentBy,Ne.symm hv]) ?_ v
  cases horder with
  | idle hposts hsent =>
    exact .calling (callsOf w tr) m (by simp [callsOf]) (by simpa [ofWriter] using hposts)
      (by simpa [ofWriter,sentBy] using hsent)

theorem Delivers.post (hd : Delivers reads s tr) {w : W} {m : M}
    (hst : s.status w = .calling m) (hempty : s.arrived = s.posted.length) :
    Delivers reads { s.setStatus w (.posted m) with posted := s.posted ++ [(w,m)] } (tr ++ []) := by
  have horder := hd.order w
  rw [hst] at horder
  have htaken := hd.taken.1
  refine ⟨?_,hd.taken,?_,fun v => ?_,fun v => ?_⟩
  · simp only [State.setStatus_taken,List.append_nil]
    rw [List.take_append_of_le_length (by omega)]
    exact hd.read
  · simp only [List.length_append,List.length_singleton,State.setStatus_arrived]
    omega
  · refine hd.writer (fun v hv => by simp [callsOf,ofWriter,sentBy,Ne.symm hv]) ?_ v
    cases horder with
    | calling before _ hcalls hposts hsent =>
      refine .posted m ?_ ?_
      · rw [hcalls]
        simpa [ofWriter,callsOf] using hposts.append (.refl [m])
      · simpa [ofWriter,sentBy] using hsent.append (.refl [m])
  · simp only [State.setStatus_arrived,List.append_nil]
    rw [List.take_append_of_le_length (by omega)]
    exact hd.sent v

theorem Delivers.arrive (hd : Delivers reads s tr) (hlt : s.arrived < s.posted.length)
    (hroom : s.arrived = s.taken) :
    Delivers reads { s with arrived := s.arrived + 1 } (tr ++ []) := by
  have htransit := hd.arrived.2
  refine ⟨by simpa using hd.read,by simp only; omega,by simp only; omega,
    fun v => by simpa using hd.order v,fun v => ?_⟩
  have hmore : List.Sublist (s.posted.take s.arrived) (s.posted.take (s.arrived + 1)) := by
    rw [List.take_add_one]
    exact List.sublist_append_left _ _
  rw [List.append_nil]
  exact (hd.sent v).trans (hmore.filterMap _)

theorem Delivers.succeed (hd : Delivers reads s tr) {w : W} {m : M}
    (hst : s.status w = .posted m) (hall : s.arrived = s.posted.length) :
    Delivers reads (s.setStatus w .idle) (tr ++ [.returned w m true]) := by
  have horder := hd.order w
  rw [hst] at horder
  have hkeep : ∀ v, InOrder (callsOf v (tr ++ [.returned w m true])) (ofWriter v s.posted)
      (sentBy v (tr ++ [.returned w m true])) ((s.setStatus w .idle).status v) := by
    intro v
    rw [← List.append_nil s.posted]
    refine hd.writer (fun v hv => by simp [callsOf,ofWriter,sentBy,Ne.symm hv]) ?_ v
    cases horder with
    | posted _ hposts hsent =>
      exact .idle (by simpa [ofWriter,callsOf] using hposts)
        (by simpa [ofWriter,sentBy] using hsent)
  refine ⟨by simpa [readsOf] using hd.read,hd.taken,hd.arrived,hkeep,fun v => ?_⟩
  -- all that was posted has arrived
  rw [State.setStatus_posted,State.setStatus_arrived,hall,List.take_length]
  by_cases hv : v = w
  · subst hv
    have hself := hkeep v
    simp only [State.setStatus,Function.update_self] at hself
    cases hself with
    | idle _ hsent => exact hsent
  · have hsent := hd.sent v
    rw [hall,List.take_length] at hsent
    simpa [sentBy,Ne.symm hv] using hsent

theorem Delivers.fail (hd : Delivers reads s tr) {w : W} {m : M}
    (hst : s.status w = .calling m ∨ s.status w = .posted m) :
    Delivers reads (s.setStatus w .idle) (tr ++ [.returned w m false]) := by
  have horder := hd.order w
  refine ⟨by simpa [readsOf] using hd.read,hd.taken,hd.arrived,fun v => ?_,
    fun v => by simpa [sentBy] using hd.sent v⟩
  rw [← List.append_nil (State.posted _)]
  refine hd.writer (fun v hv => by simp [callsOf,ofWriter,sentBy]) ?_ v
  rcases hst with hst | hst <;> rw [hst] at horder
  · cases horder with
    | calling before _ hcalls hposts hsent =>
      refine .idle ?_ (by simpa [ofWriter,sentBy] using hsent)
      rw [hcalls]
      simpa [ofWriter,callsOf] using hposts.trans (List.sublist_append_left before [m])
  · cases horder with
    | posted _ hposts hsent =>
      exact .idle (by simpa [ofWriter,callsOf] using hposts)
        (by simpa [ofWriter,sentBy] using (List.sublist_append_left _ [m]).trans hsent)

theorem Delivers.takeOut (hd : Delivers reads s tr) {w : W} {m : M} {r : R}
    (hlt : s.taken < s.arrived) (hget : s.posted[s.taken]? = some (w,m))
    (hreads : reads m = some r) :
    Delivers reads { s with taken := s.taken + 1 } (tr ++ [.read r]) := by
  have hfull := hd.taken.2
  refine ⟨?_,by simp only; omega,hd.arrived,fun v => by simpa [callsOf,sentBy] using hd.order v,
    fun v => by simpa [sentBy] using hd.sent v⟩
  have hread := hd.read
  simp only [List.take_add_one,hget,Option.toList_some,List.map_append,List.map_cons,List.map_nil,
    hread,hreads,readsOf_append]
  simp [readsOf]

theorem Delivers.step (hd : Delivers reads s tr) (hm : Move accepts reads s ls s') :
    Delivers reads s' (tr ++ ls) := by
  cases hm with
  | call w m hst => exact hd.call hst
  | post w m hst _ hempty => exact hd.post hst hempty
  | arrive hlt hroom => exact hd.arrive hlt hroom
  | succeed w m hst hall => exact hd.succeed hst hall
  | fail w m hst => exact hd.fail hst
  | read w m r hlt hget hreads => exact hd.takeOut hlt hget hreads

/-- Whatever the writers do, each message arrives at most once and in the order of its writer's
calls, none whose call has returned true is missing, and what is read is what arrived. -/
theorem delivers_of_moves (hmoves : Moves (Move accepts reads) State.initial tr s) :
    Delivers reads s tr :=
  hmoves.invariant (P:=fun s tr => Delivers reads s tr) .initial fun _ _ _ _ hd hm => hd.step hm

end Mailbox

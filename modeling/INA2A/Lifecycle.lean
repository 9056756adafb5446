import INA2A.Lib.Machine

/-! What dispatch and combine are for, without queues, connections or bytes.
A token goes through the stages of its life at its origin host, the work it causes at each
expert it selects goes through stages of its own, and every host closes once.  `T` is the
type of the stamps that messages carry, `H` names the hosts. -/
namespace INA2A

open EventMachine

variable {H T : Type}

inductive Note (H : Type)
  | dispatch (i : ℕ) | ack (i : ℕ) | pull (i : ℕ) | notReady (i : ℕ) | combined (i : ℕ)
  | input (o : H) (i : ℕ) | result (o : H) (i : ℕ)
  | finish | stop
  deriving DecidableEq

/-- What can be seen of the protocol: messages queued at a host, messages that crossed a
connection, dispatch handlers that returned, the broadcast.  A `fault` is something rejected
or dropped; no step of the protocol shows one. -/
inductive Sign (H : Type)
  | enq (h : H) (n : Note H)
  | up (h : H) (n : Note H)
  | down (h : H) (n : Note H)
  | returned (h : H) (i : ℕ)
  | broadcast
  | fault
  deriving DecidableEq

inductive Stage (H T : Type)
  | raw | task
  | attended (ts : T) | dispatching (ts : T) | dispatched (ts : T)
  | fanning (ts : T) (rest : List H)
  | acking (ts : T) | idle | chosen
  | asking (ts : T) | asked (ts : T)
  | refusing (ts : T) | refused (ts : T)
  | answering (ts : T) | returning (ts : T)
  | done

/-- The work a token causes at one expert. -/
inductive Job (T : Type)
  | absent | target
  | input (ts : T) | work (ts : T) | made (ts : T) | out (ts : T) | wire (ts : T)
  | accepted

inductive Closing (T : Type)
  | unfinished | decided (ts : T) | out (ts : T) | wire (ts : T) | marked

namespace Stage

/-- The switch has no slot for the token yet. -/
def early : Stage H T → Bool
  | raw | task | attended _ | dispatching _ | dispatched _ => true
  | _ => false

/-- The slot has been taken. -/
def late : Stage H T → Bool
  | answering _ | returning _ | done => true
  | _ => false

/-- The experts whose input the dispatch handler has still to send. -/
def rest : Stage H T → List H
  | fanning _ rest => rest
  | _ => []

end Stage

/-- The switch waits for the expert. -/
def Job.pending : Job T → Bool
  | .absent | .accepted => false
  | _ => true

/-- How many tokens each host has, how many it may have in flight, which experts each selects. -/
structure Plan (H : Type) where
  num : H → ℕ
  window : H → ℕ
  sel : H → ℕ → Finset H

structure Progress (H T : Type) where
  stage : H → ℕ → Stage H T
  job : H → ℕ → H → Job T
  fin : H → Closing T
  base : H → ℕ
  next : H → ℕ

namespace Progress

def initial : Progress H T where
  stage _ _ := .raw
  job _ _ _ := .absent
  fin _ := .unfinished
  base _ := 0
  next _ := 0

def allMarked (p : Progress H T) : Prop := ∀ h, p.fin h = .marked

end Progress

/-- The steps a token takes by itself. -/
inductive TokenStep (h : H) (i : ℕ) : Stage H T → List (Sign H) → Stage H T → Prop
  | attend (ts) : TokenStep h i .task [] (.attended ts)
  | enqDispatch (ts) : TokenStep h i (.attended ts) [.enq h (.dispatch i)] (.dispatching ts)
  | sendDispatch (ts) : TokenStep h i (.dispatching ts) [.up h (.dispatch i)] (.dispatched ts)
  | fanEnd (ts ts') :
      TokenStep h i (.fanning ts []) [.down h (.ack i),.returned h i] (.acking ts')
  | acked (ts) : TokenStep h i (.acking ts) [] .idle
  | choose : TokenStep h i .idle [] .chosen
  | ask (ts) : TokenStep h i .chosen [.enq h (.pull i)] (.asking ts)
  | sendPull (ts) : TokenStep h i (.asking ts) [.up h (.pull i)] (.asked ts)
  | sendRefusal (ts) : TokenStep h i (.refusing ts) [.down h (.notReady i)] (.refused ts)
  | refused (ts) : TokenStep h i (.refused ts) [] .idle
  | sendAnswer (ts) : TokenStep h i (.answering ts) [.down h (.combined i)] (.returning ts)
  | complete (ts) : TokenStep h i (.returning ts) [] .done

inductive JobStep (o : H) (i : ℕ) (e : H) : Job T → List (Sign H) → Job T → Prop
  | arrive (ts) : JobStep o i e (.input ts) [] (.work ts)
  | compute (ts ts') : JobStep o i e (.work ts) [] (.made ts')
  | enqResult (ts) : JobStep o i e (.made ts) [.enq e (.result o i)] (.out ts)
  | sendResult (ts) : JobStep o i e (.out ts) [.up e (.result o i)] (.wire ts)
  | accept (ts) : JobStep o i e (.wire ts) [] .accepted

inductive FinStep (h : H) : Closing T → List (Sign H) → Closing T → Prop
  | enqFinish (ts) : FinStep h (.decided ts) [.enq h .finish] (.out ts)
  | sendFinish (ts) : FinStep h (.out ts) [.up h .finish] (.wire ts)

theorem TokenStep.frame {h : H} {i : ℕ} {σ σ' : Stage H T} {ls : List (Sign H)}
    (hs : TokenStep h i σ ls σ') :
    σ'.early = σ.early ∧ σ'.late = σ.late ∧ σ.rest = [] ∧ σ'.rest = [] ∧
      σ ≠ .raw ∧ σ' ≠ .raw ∧ σ ≠ .done := by
  cases hs <;> simp [Stage.early,Stage.late,Stage.rest]

theorem JobStep.frame {o e : H} {i : ℕ} {τ τ' : Job T} {ls : List (Sign H)}
    (hs : JobStep o i e τ ls τ') :
    τ.pending = true ∧ τ ≠ .absent ∧ τ' ≠ .absent ∧ τ ≠ .target ∧ τ' ≠ .target := by
  cases hs <;> simp [Job.pending]

theorem FinStep.frame {h : H} {f f' : Closing T} {ls : List (Sign H)}
    (hs : FinStep h f ls f') : f ≠ .unfinished ∧ f' ≠ .unfinished := by
  cases hs <;> simp

structure Orderly (S : Plan H) (p : Progress H T) : Prop where
  raw : ∀ h i, p.stage h i = .raw ↔ p.next h ≤ i
  next_le : ∀ h, p.next h ≤ S.num h
  next_window : ∀ h, p.next h ≤ p.base h + S.window h
  base_le : ∀ h, p.base h ≤ p.next h
  base_done : ∀ h i, i < p.base h → p.stage h i = .done
  early : ∀ h i e, (p.stage h i).early = true → p.job h i e = .absent
  selected : ∀ h i e, (p.stage h i).early = false → (p.job h i e ≠ .absent ↔ e ∈ S.sel h i)
  late : ∀ h i e, (p.stage h i).late = true → (p.job h i e).pending = false
  target : ∀ h i e, p.job h i e = .target ↔ e ∈ (p.stage h i).rest
  nodup : ∀ h i, (p.stage h i).rest.Nodup
  closing : ∀ h, p.fin h ≠ .unfinished → p.base h = S.num h

theorem Orderly.initial (S : Plan H) : Orderly S (Progress.initial : Progress H T) := by
  constructor <;> simp [Progress.initial,Stage.early,Stage.late,Stage.rest]

theorem Orderly.closed {S : Plan H} {p : Progress H T} (hp : Orderly S p) {h : H}
    (hf : p.fin h ≠ .unfinished) (i : ℕ) :
    p.stage h i = .done ∧ i < S.num h ∨ p.stage h i = .raw ∧ S.num h ≤ i := by
  have hbase := hp.closing h hf
  have hle := hp.base_le h
  have hnext := hp.next_le h
  by_cases hi : i < S.num h
  · exact Or.inl ⟨hp.base_done h i (by omega),hi⟩
  · exact Or.inr ⟨(hp.raw h i).mpr (by omega),by omega⟩

/-- Once every host is marked, all its tokens are done and nobody works for anybody. -/
theorem Orderly.quiescent {S : Plan H} {p : Progress H T} (hp : Orderly S p)
    (hall : p.allMarked) (h : H) (i : ℕ) :
    (p.stage h i = .done ∧ i < S.num h ∨ p.stage h i = .raw ∧ S.num h ≤ i) ∧
      ∀ e, p.job h i e = .absent ∨ p.job h i e = .accepted := by
  have hstage := hp.closed (h := h) (by simp [hall h]) i
  refine ⟨hstage,?_⟩
  intro e
  rcases hstage with ⟨hst,-⟩ | ⟨hst,-⟩
  · have hpend := hp.late h i e (by simp [hst,Stage.late])
    cases hj : p.job h i e <;> simp_all [Job.pending]
  · exact Or.inl (hp.early h i e (by simp [hst,Stage.early]))

variable [DecidableEq H]

namespace Progress

def setStage (p : Progress H T) (h : H) (i : ℕ) (σ : Stage H T) : Progress H T :=
  { p with stage := fun g j => if g = h ∧ j = i then σ else p.stage g j }

def setJob (p : Progress H T) (o : H) (i : ℕ) (e : H) (τ : Job T) : Progress H T :=
  { p with job := fun g j f => if g = o ∧ j = i ∧ f = e then τ else p.job g j f }

def setFin (p : Progress H T) (h : H) (f : Closing T) : Progress H T :=
  { p with fin := Function.update p.fin h f }

/-- The jobs of a token that is fanned out to `targets`. -/
def setTargets (p : Progress H T) (o : H) (i : ℕ) (targets : List H) : Progress H T :=
  { p with job := fun g j f => if g = o ∧ j = i ∧ f ∈ targets then .target else p.job g j f }

variable (p : Progress H T) (h g : H) (i j : ℕ)

@[simp] theorem setStage_stage (σ : Stage H T) :
    (p.setStage h i σ).stage g j = if g = h ∧ j = i then σ else p.stage g j := rfl
@[simp] theorem setStage_job (σ : Stage H T) : (p.setStage h i σ).job = p.job := rfl
@[simp] theorem setStage_fin (σ : Stage H T) : (p.setStage h i σ).fin = p.fin := rfl
@[simp] theorem setStage_base (σ : Stage H T) : (p.setStage h i σ).base = p.base := rfl
@[simp] theorem setStage_next (σ : Stage H T) : (p.setStage h i σ).next = p.next := rfl
@[simp] theorem setJob_job (e f : H) (τ : Job T) :
    (p.setJob h i e τ).job g j f = if g = h ∧ j = i ∧ f = e then τ else p.job g j f := rfl
@[simp] theorem setJob_stage (e : H) (τ : Job T) : (p.setJob h i e τ).stage = p.stage := rfl
@[simp] theorem setJob_fin (e : H) (τ : Job T) : (p.setJob h i e τ).fin = p.fin := rfl
@[simp] theorem setJob_base (e : H) (τ : Job T) : (p.setJob h i e τ).base = p.base := rfl
@[simp] theorem setJob_next (e : H) (τ : Job T) : (p.setJob h i e τ).next = p.next := rfl
@[simp] theorem setTargets_job (f : H) (targets : List H) : (p.setTargets h i targets).job g j f =
    if g = h ∧ j = i ∧ f ∈ targets then .target else p.job g j f := rfl
@[simp] theorem setTargets_stage (targets : List H) :
    (p.setTargets h i targets).stage = p.stage := rfl
@[simp] theorem setTargets_fin (targets : List H) : (p.setTargets h i targets).fin = p.fin := rfl
@[simp] theorem setTargets_base (targets : List H) :
    (p.setTargets h i targets).base = p.base := rfl
@[simp] theorem setTargets_next (targets : List H) :
    (p.setTargets h i targets).next = p.next := rfl
@[simp] theorem setFin_fin (f : Closing T) :
    (p.setFin h f).fin g = if g = h then f else p.fin g := by
  simp [setFin,Function.update_apply]
@[simp] theorem setFin_stage (f : Closing T) : (p.setFin h f).stage = p.stage := rfl
@[simp] theorem setFin_job (f : Closing T) : (p.setFin h f).job = p.job := rfl
@[simp] theorem setFin_base (f : Closing T) : (p.setFin h f).base = p.base := rfl
@[simp] theorem setFin_next (f : Closing T) : (p.setFin h f).next = p.next := rfl

end Progress

inductive Advance (S : Plan H) (p : Progress H T) : List (Sign H) → Progress H T → Prop
  | admission (h) : p.next h < S.num h → p.next h < p.base h + S.window h →
      Advance S p [] { p.setStage h (p.next h) .task with
        next := Function.update p.next h (p.next h + 1) }
  | token (h i ls σ) : TokenStep h i (p.stage h i) ls σ → Advance S p ls (p.setStage h i σ)
  | job (o i e ls τ) : JobStep o i e (p.job o i e) ls τ → Advance S p ls (p.setJob o i e τ)
  | create (h i ts targets) : p.stage h i = .dispatched ts → targets.Nodup →
      (∀ e, e ∈ targets ↔ e ∈ S.sel h i) →
      Advance S p [] ((p.setStage h i (.fanning ts targets)).setTargets h i targets)
  | fanOut (h i ts g rest ts') : p.stage h i = .fanning ts (g::rest) →
      Advance S p [.down g (.input h i)]
        ((p.setStage h i (.fanning ts rest)).setJob h i g (.input ts'))
  | answer (h i ts ts') : p.stage h i = .asked ts → (∀ e, (p.job h i e).pending = false) →
      Advance S p [] (p.setStage h i (.answering ts'))
  | refuse (h i ts ts') : p.stage h i = .asked ts → (∃ e, (p.job h i e).pending = true) →
      Advance S p [] (p.setStage h i (.refusing ts'))
  | slide (h) : p.base h < S.num h → p.stage h (p.base h) = .done →
      Advance S p [] { p with base := Function.update p.base h (p.base h + 1) }
  | finish (h ts) : p.fin h = .unfinished → S.num h ≤ p.base h →
      Advance S p [] (p.setFin h (.decided ts))
  | close (h ls f) : FinStep h (p.fin h) ls f → Advance S p ls (p.setFin h f)
  | mark (h ts) : p.fin h = .wire ts → (∃ g, g ≠ h ∧ p.fin g ≠ .marked) →
      Advance S p [] (p.setFin h .marked)
  | markLast (h ts) : p.fin h = .wire ts → (∀ g, g ≠ h → p.fin g = .marked) →
      Advance S p [.broadcast] (p.setFin h .marked)
  | stop (g) : p.allMarked → Advance S p [.down g .stop] p

abbrev Course (S : Plan H) (p : Progress H T) (tr : List (Sign H)) : Prop :=
  Moves (Advance S) Progress.initial tr p

/-- What is required of one token in stage `σ`, for which the experts `sel` are selected, and of the
work for it. -/
structure Stage.Orderly (sel : Finset H) (σ : Stage H T) (job : H → Job T) : Prop where
  early : σ.early = true → ∀ e, job e = .absent
  selected : σ.early = false → ∀ e, job e ≠ .absent ↔ e ∈ sel
  late : σ.late = true → ∀ e, (job e).pending = false
  target : ∀ e, job e = .target ↔ e ∈ σ.rest
  nodup : σ.rest.Nodup

theorem Orderly.change {S : Plan H} {p p' : Progress H T} (hp : Orderly S p) {h : H} {i : ℕ}
    (hnext : p'.next = p.next) (hbase : p'.base = p.base) (hfin : p'.fin = p.fin)
    (hstage : ∀ g j, ¬(g = h ∧ j = i) → p'.stage g j = p.stage g j)
    (hjob : ∀ g j, ¬(g = h ∧ j = i) → p'.job g j = p.job g j)
    (hraw : p.stage h i ≠ .raw) (hraw' : p'.stage h i ≠ .raw) (hdone : p.stage h i ≠ .done)
    (htoken : (p'.stage h i).Orderly (S.sel h i) (p'.job h i)) : Orderly S p' := by
  have hfuture : ¬p.next h ≤ i := fun hle => hraw ((hp.raw h i).mpr hle)
  refine ⟨?_,?_,?_,?_,?_,?_,?_,?_,?_,?_,?_⟩
  · intro g j
    rw [hnext]
    by_cases hgj : g = h ∧ j = i
    · obtain ⟨rfl,rfl⟩ := hgj
      exact iff_of_false hraw' hfuture
    · rw [hstage g j hgj]
      exact hp.raw g j
  · rw [hnext]
    exact hp.next_le
  · rw [hnext,hbase]
    exact hp.next_window
  · rw [hnext,hbase]
    exact hp.base_le
  · intro g j hj
    rw [hbase] at hj
    have hne : ¬(g = h ∧ j = i) := by
      rintro ⟨rfl,rfl⟩
      exact hdone (hp.base_done g j hj)
    rw [hstage g j hne]
    exact hp.base_done g j hj
  · intro g j e
    by_cases hgj : g = h ∧ j = i
    · obtain ⟨rfl,rfl⟩ := hgj
      exact fun he => htoken.early he e
    · rw [hstage g j hgj,hjob g j hgj]
      exact hp.early g j e
  · intro g j e
    by_cases hgj : g = h ∧ j = i
    · obtain ⟨rfl,rfl⟩ := hgj
      exact fun he => htoken.selected he e
    · rw [hstage g j hgj,hjob g j hgj]
      exact hp.selected g j e
  · intro g j e
    by_cases hgj : g = h ∧ j = i
    · obtain ⟨rfl,rfl⟩ := hgj
      exact fun hl => htoken.late hl e
    · rw [hstage g j hgj,hjob g j hgj]
      exact hp.late g j e
  · intro g j
    by_cases hgj : g = h ∧ j = i
    · obtain ⟨rfl,rfl⟩ := hgj
      exact htoken.target
    · rw [hstage g j hgj,hjob g j hgj]
      exact hp.target g j
  · intro g j
    by_cases hgj : g = h ∧ j = i
    · obtain ⟨rfl,rfl⟩ := hgj
      exact htoken.nodup
    · rw [hstage g j hgj]
      exact hp.nodup g j
  · rw [hbase,hfin]
    exact hp.closing

theorem Orderly.setStage {S : Plan H} {p : Progress H T} (hp : Orderly S p) {h : H} {i : ℕ}
    {σ : Stage H T} (hearly : σ.early = (p.stage h i).early)
    (hlate : σ.late = true → ∀ e, (p.job h i e).pending = false)
    (hrest : σ.rest = (p.stage h i).rest) (hraw : p.stage h i ≠ .raw) (hraw' : σ ≠ .raw)
    (hdone : p.stage h i ≠ .done) : Orderly S (p.setStage h i σ) := by
  have hself : (p.setStage h i σ).stage h i = σ := by simp
  refine hp.change (h := h) (i := i) rfl rfl rfl ?_ (fun _ _ _ => rfl) hraw ?_ hdone ?_
  · intro g j hgj
    simp [hgj]
  · rwa [hself]
  · rw [hself]
    refine ⟨?_,?_,hlate,?_,?_⟩
    · rw [hearly]
      exact fun he e => hp.early h i e he
    · rw [hearly]
      exact fun he e => hp.selected h i e he
    · rw [hrest]
      exact hp.target h i
    · rw [hrest]
      exact hp.nodup h i

theorem Orderly.setFin {S : Plan H} {p : Progress H T} (hp : Orderly S p) {h : H} {f : Closing T}
    (hbase : p.base h = S.num h) : Orderly S (p.setFin h f) :=
  { hp with
    closing := by
      intro g hg
      by_cases hgh : g = h
      · subst hgh
        exact hbase
      · exact hp.closing g (by simpa [hgh] using hg) }

theorem Orderly.job {S : Plan H} {p : Progress H T} (hp : Orderly S p) {o e : H} {i : ℕ}
    {τ : Job T} {ls : List (Sign H)} (hs : JobStep o i e (p.job o i e) ls τ) :
    Orderly S (p.setJob o i e τ) := by
  obtain ⟨hpend,habs,habs',htgt,htgt'⟩ := hs.frame
  refine { hp with early := ?_, selected := ?_, late := ?_, target := ?_ }
  · intro g j f hearly
    have hne : ¬(g = o ∧ j = i ∧ f = e) := by
      rintro ⟨rfl,rfl,rfl⟩
      exact habs (hp.early g j f hearly)
    simpa [hne] using hp.early g j f hearly
  · intro g j f hearly
    have hsel := hp.selected g j f hearly
    by_cases hgj : g = o ∧ j = i ∧ f = e
    · obtain ⟨rfl,rfl,rfl⟩ := hgj
      simpa [habs'] using hsel.mp habs
    · simpa [hgj] using hsel
  · intro g j f hlate
    have hne : ¬(g = o ∧ j = i ∧ f = e) := by
      rintro ⟨rfl,rfl,rfl⟩
      simp [hp.late g j f hlate] at hpend
    simpa [hne] using hp.late g j f hlate
  · intro g j f
    have ht := hp.target g j f
    by_cases hgj : g = o ∧ j = i ∧ f = e
    · obtain ⟨rfl,rfl,rfl⟩ := hgj
      have hnot : f ∉ (p.stage g j).rest := fun hmem => htgt (ht.mpr hmem)
      simp [htgt',hnot]
    · simpa [hgj] using ht

theorem Orderly.create {S : Plan H} {p : Progress H T} (hp : Orderly S p) {h : H} {i : ℕ} {ts : T}
    {targets : List H} (hst : p.stage h i = .dispatched ts) (hnd : targets.Nodup)
    (hsel : ∀ e, e ∈ targets ↔ e ∈ S.sel h i) :
    Orderly S ((p.setStage h i (.fanning ts targets)).setTargets h i targets) := by
  have habs : ∀ e, p.job h i e = .absent := fun e => hp.early h i e (by simp [hst,Stage.early])
  refine hp.change (h := h) (i := i) rfl rfl rfl ?_ ?_ (by simp [hst]) (by simp) (by simp [hst]) ?_
  · intro g j hgj
    simp [hgj]
  · intro g j hgj
    funext e
    rw [Progress.setTargets_job,if_neg (by tauto),Progress.setStage_job]
  · simp only [Progress.setTargets_stage,Progress.setStage_stage,and_self,if_true]
    refine ⟨?_,?_,?_,?_,hnd⟩
    · simp [Stage.early]
    · intro _ e
      by_cases hmem : e ∈ targets
      · simpa [hmem] using (hsel e).mp hmem
      · simpa [hmem,habs] using fun hs => hmem ((hsel e).mpr hs)
    · simp [Stage.late]
    · intro e
      by_cases hmem : e ∈ targets <;> simp [hmem,habs,Stage.rest]

theorem Orderly.fanOut {S : Plan H} {p : Progress H T} (hp : Orderly S p) {h g : H} {i : ℕ}
    {ts ts' : T} {rest : List H} (hst : p.stage h i = .fanning ts (g::rest)) :
    Orderly S ((p.setStage h i (.fanning ts rest)).setJob h i g (.input ts')) := by
  have hnd := hp.nodup h i
  have htgt := hp.target h i
  simp only [hst,Stage.rest,List.nodup_cons] at hnd htgt
  refine hp.change (h := h) (i := i) rfl rfl rfl ?_ ?_ (by simp [hst]) (by simp) (by simp [hst]) ?_
  · intro g' j hgj
    simp [hgj]
  · intro g' j hgj
    funext e
    rw [Progress.setJob_job,if_neg (by tauto),Progress.setStage_job]
  · simp only [Progress.setJob_stage,Progress.setStage_stage,and_self,if_true]
    refine ⟨?_,?_,?_,?_,hnd.2⟩
    · simp [Stage.early]
    · intro _ e
      have hsel := hp.selected h i e (by simp [hst,Stage.early])
      by_cases he : e = g
      · subst he
        have hjob := (htgt e).mpr (by simp)
        simpa using hsel.mp (by simp [hjob])
      · simpa [he] using hsel
    · simp [Stage.late]
    · intro e
      by_cases he : e = g
      · subst he
        simpa [Stage.rest] using hnd.1
      · simpa [he,Stage.rest] using htgt e

theorem Orderly.admission {S : Plan H} {p : Progress H T} (hp : Orderly S p) {h : H}
    (hnum : p.next h < S.num h) (hwin : p.next h < p.base h + S.window h) :
    Orderly S { p.setStage h (p.next h) .task with
      next := Function.update p.next h (p.next h + 1) } := by
  have hraw := (hp.raw h (p.next h)).mpr le_rfl
  constructor
  · intro g j
    have hr := hp.raw g j
    by_cases hg : g = h
    · subst hg
      by_cases hj : j = p.next g
      · subst hj
        simp
      · simp only [Function.update_self,Progress.setStage_stage,hj,and_false,if_false,hr]
        omega
    · simpa [hg] using hr
  · intro g
    by_cases hg : g = h
    · subst hg
      simpa using hnum
    · simpa [hg] using hp.next_le g
  · intro g
    by_cases hg : g = h
    · subst hg
      simpa using hwin
    · simpa [hg] using hp.next_window g
  · intro g
    have hle := hp.base_le g
    by_cases hg : g = h
    · subst hg
      simp only [Progress.setStage_base,Function.update_self]
      omega
    · simpa [hg] using hle
  · intro g j hj
    have hle := hp.base_le g
    have hne : ¬(g = h ∧ j = p.next h) := by
      rintro ⟨rfl,rfl⟩
      exact absurd hj (by simpa using hle)
    simpa [hne] using hp.base_done g j hj
  · intro g j e hearly
    by_cases hgj : g = h ∧ j = p.next h
    · obtain ⟨rfl,rfl⟩ := hgj
      exact hp.early g _ e (by simp [hraw,Stage.early])
    · exact hp.early g j e (by simpa [hgj] using hearly)
  · intro g j e hearly
    by_cases hgj : g = h ∧ j = p.next h
    · obtain ⟨rfl,rfl⟩ := hgj
      simp [Stage.early] at hearly
    · exact hp.selected g j e (by simpa [hgj] using hearly)
  · intro g j e hlate
    by_cases hgj : g = h ∧ j = p.next h
    · obtain ⟨rfl,rfl⟩ := hgj
      simp [Stage.late] at hlate
    · exact hp.late g j e (by simpa [hgj] using hlate)
  · intro g j e
    have ht := hp.target g j e
    by_cases hgj : g = h ∧ j = p.next h
    · obtain ⟨rfl,rfl⟩ := hgj
      simpa [hraw,Stage.rest] using ht
    · simpa [hgj] using ht
  · intro g j
    by_cases hgj : g = h ∧ j = p.next h
    · obtain ⟨rfl,rfl⟩ := hgj
      simp [Stage.rest]
    · simpa [hgj] using hp.nodup g j
  · exact hp.closing

theorem Orderly.slide {S : Plan H} {p : Progress H T} (hp : Orderly S p) {h : H}
    (hnum : p.base h < S.num h) (hdone : p.stage h (p.base h) = .done) :
    Orderly S { p with base := Function.update p.base h (p.base h + 1) } := by
  have hlt : p.base h < p.next h := by
    by_contra hle
    have hraw := (hp.raw h (p.base h)).mpr (by omega)
    simp [hdone] at hraw
  refine { hp with next_window := ?_, base_le := ?_, base_done := ?_, closing := ?_ }
  · intro g
    have hw := hp.next_window g
    by_cases hg : g = h
    · subst hg
      simp only [Function.update_self]
      omega
    · simpa [hg] using hw
  · intro g
    by_cases hg : g = h
    · subst hg
      simpa using hlt
    · simpa [hg] using hp.base_le g
  · intro g j hj
    by_cases hg : g = h
    · subst hg
      simp only [Function.update_self] at hj
      rcases Nat.lt_succ_iff_lt_or_eq.mp hj with hj | rfl
      · exact hp.base_done g j hj
      · exact hdone
    · exact hp.base_done g j (by simpa [hg] using hj)
  · intro g hf
    have hc := hp.closing g hf
    by_cases hg : g = h
    · subst hg
      omega
    · simpa [hg] using hc

theorem Orderly.advance {S : Plan H} {p p' : Progress H T} {ls : List (Sign H)}
    (hp : Orderly S p) (ha : Advance S p ls p') : Orderly S p' := by
  cases ha with
  | admission h hnum hwin => exact hp.admission hnum hwin
  | token h i _ σ hs =>
    obtain ⟨hearly,hlate,hrest,hrest',hraw,hraw',hdone⟩ := hs.frame
    exact hp.setStage hearly (fun hl e => hp.late h i e (hlate ▸ hl)) (hrest'.trans hrest.symm)
      hraw hraw' hdone
  | job o i e _ τ hs => exact hp.job hs
  | create h i ts targets hst hnd hsel => exact hp.create hst hnd hsel
  | fanOut h i ts g rest ts' hst => exact hp.fanOut hst
  | answer h i ts ts' hst hall =>
    exact hp.setStage (by simp [hst,Stage.early]) (fun _ => hall) (by simp [hst,Stage.rest])
      (by simp [hst]) (by simp) (by simp [hst])
  | refuse h i ts ts' hst hex =>
    exact hp.setStage (by simp [hst,Stage.early]) (fun hl => by simp [Stage.late] at hl)
      (by simp [hst,Stage.rest]) (by simp [hst]) (by simp) (by simp [hst])
  | slide h hnum hdone => exact hp.slide hnum hdone
  | finish h ts hf hbase =>
    have hle := hp.base_le h
    have hnext := hp.next_le h
    exact hp.setFin (by omega)
  | close h _ f hs => exact hp.setFin (hp.closing h hs.frame.1)
  | mark h ts hf => exact hp.setFin (hp.closing h (by simp [hf]))
  | markLast h ts hf => exact hp.setFin (hp.closing h (by simp [hf]))
  | stop g hall => exact hp

theorem orderly_of_course {S : Plan H} {p : Progress H T} {tr : List (Sign H)}
    (hc : Course S p tr) : Orderly S p :=
  hc.invariant (P := fun p _ => Orderly S p) (Orderly.initial S)
    fun _ _ _ _ hp ha => hp.advance ha

end INA2A

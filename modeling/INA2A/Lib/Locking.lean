import INA2A.Lib.Machine

/-! Machines whose steps are critical sections of threads.  A step that locks a mutex is
preceded by a request and an acquisition, and other threads move in between.
What a thread waits for is a relation between threads; ranks show that it has no cycle. -/
namespace EventMachine

section waiting

variable {T : Type} {R : T → T → Prop} {rank : T → ℕ}

theorem acyclic_of_rank (hrank : ∀ t u, R t u → rank u < rank t) (t : T) :
    ¬Relation.TransGen R t t := by
  have hdown : ∀ u, Relation.TransGen R t u → rank u < rank t := by
    intro u hu
    induction hu with
    | single hu => exact hrank _ _ hu
    | tail _ hv ih => exact (hrank _ _ hv).trans ih
  intro hcycle
  exact absurd (hdown t hcycle) (lt_irrefl _)

end waiting

inductive Phase (μ : Type)
  | free
  | waiting (m : μ)
  | holding (m : μ)
  deriving DecidableEq

/-- Which thread takes a step, which mutex the step locks while it lasts, and when a thread
that has locked its mutex goes to sleep on a condition variable instead. -/
structure Sections (S A T μ : Type) where
  thread : A → T
  mutex : S → A → Option μ
  sleeps : S → T → Bool

structure LockState (S T μ : Type) where
  state : S
  phase : T → Phase μ

inductive LockAction (A T : Type)
  | request (a : A)
  | acquire (t : T)
  | sleep (t : T)
  | perform (a : A)

variable {S A E T μ : Type}

/-- The phase in which a thread may take a step that locks `m`. -/
def Phase.within : Option μ → Phase μ
  | none => .free
  | some m => .holding m

/-- `t` waits for a mutex that `u` holds. -/
def WaitsForMutex (s : LockState S T μ) (t u : T) : Prop :=
  ∃ m, s.phase t = .waiting m ∧ s.phase u = .holding m

/-- The thread is about to enter a critical section that locks `m`. -/
def Wants (L : Sections S A T μ) (s : S) (t : T) (m : μ) : Prop :=
  ∃ a, L.thread a = t ∧ L.mutex s a = some m

def Exclusive (s : LockState S T μ) : Prop :=
  ∀ t u m, s.phase t = .holding m → s.phase u = .holding m → t = u

/-- A thread that waits for a mutex or holds it is about to enter a section that locks it. -/
def Placed (L : Sections S A T μ) (s : LockState S T μ) : Prop :=
  ∀ t m, s.phase t = .waiting m ∨ s.phase t = .holding m → Wants L s.state t m

variable {M : Machine S A E} {L : Sections S A T μ} {ok : S → A → Bool} {s s' : LockState S T μ}
  {hist ev : List E}

theorem Placed.free (hp : Placed L s) {t : T} (hnone : ∀ m, ¬Wants L s.state t m) :
    s.phase t = .free := by
  cases ht : s.phase t with
  | free => rfl
  | waiting m => exact absurd (hp t m (.inl ht)) (hnone m)
  | holding m => exact absurd (hp t m (.inr ht)) (hnone m)

variable [DecidableEq T]

def LockState.setPhase (s : LockState S T μ) (t : T) (φ : Phase μ) : LockState S T μ :=
  { s with phase := Function.update s.phase t φ }

@[simp] theorem setPhase_state (s : LockState S T μ) (t : T) (φ : Phase μ) :
    (s.setPhase t φ).state = s.state := rfl
@[simp] theorem setPhase_phase (s : LockState S T μ) (t u : T) (φ : Phase μ) :
    (s.setPhase t φ).phase u = if u = t then φ else s.phase u := by
  simp [LockState.setPhase,Function.update_apply]

/-- What a step can do: take a mutex or let go of one, or be a step of the machine. -/
inductive LockMove (M : Machine S A E) (L : Sections S A T μ) (s : LockState S T μ) :
    LockAction A T → LockState S T μ → List E → Prop
  | request (a m) : s.phase (L.thread a) = .free → L.mutex s.state a = some m →
      LockMove M L s (.request a) (s.setPhase (L.thread a) (.waiting m)) []
  | acquire (t m) : s.phase t = .waiting m → (∀ u, s.phase u ≠ .holding m) →
      LockMove M L s (.acquire t) (s.setPhase t (.holding m)) []
  | sleep (t m) : s.phase t = .holding m → L.sleeps s.state t = true →
      LockMove M L s (.sleep t) (s.setPhase t .free) []
  | perform (a t ev) : s.phase (L.thread a) = Phase.within (L.mutex s.state a) →
      M.step s.state a = some (t,ev) →
      LockMove M L s (.perform a) { s.setPhase (L.thread a) .free with state := t } ev

theorem LockMove.exclusive {a : LockAction A T} (hx : Exclusive s) (hm : LockMove M L s a s' ev) :
    Exclusive s' := by
  have hkeep : ∀ (t : T) (φ : Phase μ), (∀ m, φ = .holding m → ∀ u, s.phase u ≠ .holding m) →
      Exclusive (s.setPhase t φ) := by
    intro t φ hφ u v m hu hv
    simp only [setPhase_phase] at hu hv
    split_ifs at hu hv with hut hvt hvt
    · rw [hut,hvt]
    · exact absurd hv (hφ m hu v)
    · exact absurd hu (hφ m hv u)
    · exact hx u v m hu hv
  cases hm with
  | request b m _ _ => exact hkeep _ _ (by simp)
  | acquire t m _ hnone => exact hkeep _ _ (by rintro m' ⟨⟩; exact hnone)
  | sleep t m _ _ => exact hkeep _ _ (by simp)
  | perform b t _ _ _ => exact hkeep (L.thread b) .free (by simp)

theorem LockMove.placed {a : LockAction A T} (hp : Placed L s) (hm : LockMove M L s a s' ev)
    (hstable : ∀ b r ev t m, M.step s.state b = some (r,ev) → t ≠ L.thread b →
      Wants L s.state t m → Wants L r t m) : Placed L s' := by
  have hkeep : ∀ (t : T) (φ : Phase μ),
      (∀ m, φ = .waiting m ∨ φ = .holding m → Wants L s.state t m) → Placed L (s.setPhase t φ) := by
    intro t φ hφ u m hu
    simp only [setPhase_phase] at hu
    split_ifs at hu with hut
    · subst hut
      exact hφ m hu
    · exact hp u m hu
  cases hm with
  | request b m _ hmutex =>
    refine hkeep _ _ ?_
    rintro m' (h | h) <;> cases h
    exact ⟨b,rfl,hmutex⟩
  | acquire t m hw _ =>
    refine hkeep _ _ ?_
    rintro m' (h | h) <;> cases h
    exact hp t m (.inl hw)
  | sleep t m _ _ => exact hkeep _ _ (by simp)
  | perform b r _ _ hstep =>
    intro u m hu
    have hne : u ≠ L.thread b := by
      rintro rfl
      simp at hu
    have hphase : s.phase u = .waiting m ∨ s.phase u = .holding m := by simpa [hne] using hu
    exact hstable b r _ u m hstep hne (hp u m hphase)

section steps

variable [Fintype T] [DecidableEq μ]

def lockStep (M : Machine S A E) (L : Sections S A T μ) (s : LockState S T μ) :
    LockAction A T → Option (LockState S T μ × List E)
  | .request a =>
    match s.phase (L.thread a), L.mutex s.state a with
    | .free, some m => some (s.setPhase (L.thread a) (.waiting m),[])
    | _, _ => none
  | .acquire t =>
    match s.phase t with
    | .waiting m =>
      if ∀ u, s.phase u ≠ .holding m then some (s.setPhase t (.holding m),[]) else none
    | _ => none
  | .sleep t =>
    match s.phase t with
    | .holding _ => if L.sleeps s.state t then some (s.setPhase t .free,[]) else none
    | _ => none
  | .perform a =>
    if s.phase (L.thread a) = Phase.within (L.mutex s.state a) then
      (M.step s.state a).map fun r =>
        ({ s.setPhase (L.thread a) .free with state := r.1 },r.2)
    else none

def locking (M : Machine S A E) (L : Sections S A T μ) :
    Machine (LockState S T μ) (LockAction A T) E where
  init s := M.init s.state ∧ ∀ t, s.phase t = .free
  step := lockStep M L

def LockAction.thread (L : Sections S A T μ) : LockAction A T → T
  | .request a => L.thread a
  | .acquire t => t
  | .sleep t => t
  | .perform a => L.thread a

def performs (ok : S → A → Bool) (s : LockState S T μ) : LockAction A T → Bool
  | .perform a => ok s.state a
  | _ => true

def CanStep (M : Machine S A E) (L : Sections S A T μ) (ok : S → A → Bool) (s : LockState S T μ)
    (t : T) : Prop :=
  ∃ a : LockAction A T, a.thread L = t ∧ performs ok s a = true ∧ (lockStep M L s a).isSome = true

theorem lockStep_move {a : LockAction A T} (hs : lockStep M L s a = some (s',ev)) :
    LockMove M L s a s' ev := by
  cases a with
  | request a =>
    simp only [lockStep] at hs
    split at hs
    · rename_i m hfree hm
      obtain ⟨rfl,rfl⟩ := Prod.mk.inj (Option.some.inj hs)
      exact .request a m hfree hm
    · cases hs
  | acquire t =>
    simp only [lockStep] at hs
    split at hs
    · rename_i m hw
      split_ifs at hs with hnone
      obtain ⟨rfl,rfl⟩ := Prod.mk.inj (Option.some.inj hs)
      exact .acquire t m hw hnone
    · cases hs
  | sleep t =>
    simp only [lockStep] at hs
    split at hs
    · rename_i m hh
      split_ifs at hs with hsleep
      obtain ⟨rfl,rfl⟩ := Prod.mk.inj (Option.some.inj hs)
      exact .sleep t m hh hsleep
    · cases hs
  | perform a =>
    simp only [lockStep] at hs
    split_ifs at hs with hphase
    obtain ⟨⟨t,ev'⟩,hstep,heq⟩ := Option.map_eq_some_iff.mp hs
    obtain ⟨rfl,rfl⟩ := Prod.mk.inj heq
    exact .perform a t ev' hphase hstep

theorem RunOn.unlocked (hr : RunOn (locking M L) (fun s a => performs ok s a = true) s hist) :
    RunOn M (fun s a => ok s a = true) s.state hist := by
  induction hr with
  | start hi => exact .start hi.1
  | @next s s' hist ev a _ hok hs ih =>
    cases lockStep_move hs with
    | request b m _ _ => simpa using ih
    | acquire t m _ _ => simpa using ih
    | sleep t m _ _ => simpa using ih
    | perform b t _ _ hstep => exact ih.next hok hstep

theorem perform_steps {t t' : S} {a : A} (hok : ok t a = true) (hs : M.step t a = some (t',ev)) :
    ∃ n, Steps (locking M L) (fun s a => performs ok s a = true) ⟨t,fun _ => .free⟩ n
      ⟨t',fun _ => .free⟩ ev := by
  have hfree : Function.update (fun _ => Phase.free) (L.thread a) Phase.free =
      (fun _ => Phase.free : T → Phase μ) := Function.update_eq_self (L.thread a) _
  cases hm : L.mutex t a with
  | none =>
    refine ⟨1,Steps.single (a:=.perform a) hok ?_⟩
    simp [locking,lockStep,hm,Phase.within,hs,LockState.setPhase]
  | some m =>
    let waiting : LockState S T μ := ⟨t,Function.update (fun _ => .free) (L.thread a) (.waiting m)⟩
    let holding : LockState S T μ := ⟨t,Function.update (fun _ => .free) (L.thread a) (.holding m)⟩
    have hnone : ∀ u, waiting.phase u ≠ .holding m := by
      intro u
      by_cases hu : u = L.thread a <;> simp [waiting,hu]
    have hrequest : (locking M L).step ⟨t,fun _ => .free⟩ (.request a) = some (waiting,[]) := by
      simp [locking,lockStep,hm,LockState.setPhase,waiting]
    have hacquire : (locking M L).step waiting (.acquire (L.thread a)) = some (holding,[]) := by
      simp only [locking,lockStep,waiting,Function.update_self]
      rw [if_pos hnone]
      simp [LockState.setPhase,holding]
    have hperform : (locking M L).step holding (.perform a) = some (⟨t',fun _ => .free⟩,ev) := by
      simp [locking,lockStep,hm,Phase.within,hs,LockState.setPhase,holding]
    have hsteps : Steps (locking M L) (fun s a => performs ok s a = true) ⟨t,fun _ => .free⟩ 1
        waiting [] := .single (a:=.request a) rfl hrequest
    exact ⟨_,(hsteps.trans (.single (a:=.acquire (L.thread a)) rfl hacquire)).trans
      (.single (a:=.perform a) hok hperform)⟩

/-- Every run of the machine is one of threads, each locking its mutex right before its step. -/
theorem RunOn.locked {t : S} (hr : RunOn M (fun s a => ok s a = true) t hist) :
    RunOn (locking M L) (fun s a => performs ok s a = true) ⟨t,fun _ => .free⟩ hist := by
  induction hr with
  | start hi => exact .start ⟨hi,fun _ => rfl⟩
  | next _ hok hs ih =>
    obtain ⟨n,hsteps⟩ := perform_steps (L:=L) hok hs
    exact ih.steps hsteps

theorem mutual_exclusion {ok' : LockState S T μ → LockAction A T → Prop}
    (hr : RunOn (locking M L) ok' s hist) : Exclusive s := by
  refine hr.invariant (P := fun s _ => Exclusive s) ?_ ?_
  · intro s hi t u m ht
    simp [hi.2 t] at ht
  · intro s hist a s' ev _ hx _ hs
    exact (lockStep_move hs).exclusive hx

/-- A thread at a critical section can take a step or waits for one that can, provided a
thread that has locked its mutex always finds its step possible or goes to sleep. -/
theorem Placed.section_progress (hp : Placed L s) {t : T} {m : μ} (ht : Wants L s.state t m)
    (hlive : ∀ u n, Wants L s.state u n → L.sleeps s.state u = true ∨
      ∃ a, L.thread a = u ∧ L.mutex s.state a = some n ∧ ok s.state a = true ∧
        (M.step s.state a).isSome = true) :
    CanStep M L ok s t ∨ ∃ u, WaitsForMutex s t u ∧ CanStep M L ok s u := by
  have hholder : ∀ u n, s.phase u = .holding n → CanStep M L ok s u := by
    intro u n hu
    rcases hlive u n (hp u n (.inr hu)) with hsleep | ⟨a,rfl,ha,hok,hstep⟩
    · exact ⟨.sleep u,rfl,rfl,by simp [lockStep,hu,hsleep]⟩
    · exact ⟨.perform a,rfl,hok,by simpa [lockStep,hu,ha,Phase.within] using hstep⟩
  cases hphase : s.phase t with
  | free =>
    obtain ⟨a,rfl,ha⟩ := ht
    exact .inl ⟨.request a,rfl,rfl,by simp [lockStep,hphase,ha]⟩
  | holding n => exact .inl (hholder t n hphase)
  | waiting n =>
    by_cases hnone : ∀ u, s.phase u ≠ .holding n
    · exact .inl ⟨.acquire t,rfl,rfl,by simp [lockStep,hphase,hnone]⟩
    · push Not at hnone
      obtain ⟨u,hu⟩ := hnone
      exact .inr ⟨u,⟨n,hphase,hu⟩,hholder u n hu⟩

end steps

end EventMachine

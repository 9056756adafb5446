import INA2A.Lib.Locking

/-! Machines that come to rest.  Steps that use up effort cannot go on for ever, and threads
can let go of all their mutexes; so a machine is taken from one state of rest to the next. -/
namespace EventMachine

theorem sum_change {ι : Type} [Fintype ι] {f g : ι → ℕ} (i : ι) (hne : ∀ j, j ≠ i → g j = f j) :
    ∑ j, g j + f i = ∑ j, f j + g i := by
  classical
  have hrest : ∑ j ∈ Finset.univ.erase i, g j = ∑ j ∈ Finset.univ.erase i, f j :=
    Finset.sum_congr rfl fun j hj => hne j (Finset.ne_of_mem_erase hj)
  rw [← Finset.add_sum_erase _ f (Finset.mem_univ i),← Finset.add_sum_erase _ g (Finset.mem_univ i),
    hrest]
  omega

variable {S A E : Type} {M : Machine S A E} {ok ok' : S → A → Prop} {s t u : S} {n m : ℕ}
  {h h' : List E}

/-- No allowed step can be taken. -/
def Resting (M : Machine S A E) (ok : S → A → Prop) (s : S) : Prop :=
  ∀ a, ok s a → M.step s a = none

theorem Steps.bounded {effort : S → ℕ}
    (hdown : ∀ s a s' ev, ok s a → M.step s a = some (s',ev) → effort s' < effort s)
    (hsteps : Steps M ok s n t h) : n + effort t ≤ effort s := by
  induction hsteps with
  | refl => omega
  | tail _ hok hs ih =>
    have := hdown _ _ _ _ hok hs
    omega

theorem exists_resting {effort : S → ℕ}
    (hdown : ∀ s a s' ev, ok s a → M.step s a = some (s',ev) → effort s' < effort s) (s : S) :
    ∃ n t h, Steps M ok s n t h ∧ Resting M ok t := by
  induction heffort : effort s using Nat.strong_induction_on generalizing s with
  | _ k ih =>
    by_cases hrest : Resting M ok s
    · exact ⟨0,s,[],.refl,hrest⟩
    · simp only [Resting,not_forall] at hrest
      obtain ⟨a,hok,hstep⟩ := hrest
      obtain ⟨⟨s',ev⟩,hs⟩ := Option.ne_none_iff_exists'.mp hstep
      obtain ⟨n,t,h,hsteps,ht⟩ := ih (effort s') (heffort ▸ hdown s a s' ev hok hs) s' rfl
      exact ⟨1 + n,t,ev ++ h,(Steps.single hok hs).trans hsteps,ht⟩

section locks

variable {T μ : Type} [Fintype T] [DecidableEq T] [DecidableEq μ] {L : Sections S A T μ}
  {guard : S → A → Bool} {σ τ : LockState S T μ} {hist ev : List E}

theorem Steps.locked (hsteps : Steps M (fun s a => guard s a = true) s n t h) :
    ∃ m, Steps (locking M L) (fun σ a => performs guard σ a = true) ⟨s,fun _ => .free⟩ m
      ⟨t,fun _ => .free⟩ h := by
  induction hsteps with
  | refl => exact ⟨0,.refl⟩
  | tail _ hok hs ih =>
    obtain ⟨m,hm⟩ := ih
    obtain ⟨k,hk⟩ := perform_steps (L:=L) hok hs
    exact ⟨m + k,hm.trans hk⟩

/-- A thread that has locked its mutex can end its section or go to sleep. -/
def Live (M : Machine S A E) (L : Sections S A T μ) (guard : S → A → Bool) (s : S) : Prop :=
  ∀ t m, Wants L s t m → L.sleeps s t = true ∨
    ∃ a, L.thread a = t ∧ L.mutex s a = some m ∧ guard s a = true ∧ (M.step s a).isSome = true

theorem Placed.release (hp : Placed L σ) (hlive : Live M L guard σ.state) {t : T} {m : μ}
    (ht : σ.phase t = .holding m) :
    ∃ τ ev, Steps (locking M L) (fun σ a => performs guard σ a = true) σ 1 τ ev ∧
      τ.phase = Function.update σ.phase t .free := by
  rcases hlive t m (hp t m (.inr ht)) with hsleep | ⟨a,rfl,hm,hok,hstep⟩
  · exact ⟨σ.setPhase t .free,[],.single (a:=.sleep t) rfl
      (by simp [locking,lockStep,ht,hsleep]),rfl⟩
  · obtain ⟨⟨s',ev⟩,hs⟩ := Option.isSome_iff_exists.mp hstep
    exact ⟨{ σ.setPhase (L.thread a) .free with state := s' },ev,.single (a:=.perform a) hok
      (by simp [locking,lockStep,ht,hm,Phase.within,hs]),rfl⟩

def busyThreads (σ : LockState S T μ) : Finset T := Finset.univ.filter fun t => σ.phase t ≠ .free

theorem card_busyThreads {t : T} (hbusy : σ.phase t ≠ .free)
    (hphase : τ.phase = Function.update σ.phase t .free) :
    (busyThreads τ).card < (busyThreads σ).card := by
  apply Finset.card_lt_card
  refine Finset.ssubset_iff_subset_ne.mpr ⟨?_,?_⟩
  · intro u hu
    simp only [busyThreads,hphase,Finset.mem_filter,Finset.mem_univ,true_and] at hu ⊢
    by_cases hut : u = t
    · simp [hut] at hu
    · simpa [hut] using hu
  · intro heq
    have hmem : t ∈ busyThreads τ := by
      rw [heq]
      simpa [busyThreads] using hbusy
    simp [busyThreads,hphase] at hmem

/-- Threads in whose sections nothing is ever stuck can all leave them. -/
theorem exists_free {P : LockState S T μ → Prop} (hplaced : ∀ σ, P σ → Placed L σ)
    (hlive : ∀ σ, P σ → Live M L guard σ.state)
    (hstep : ∀ σ n τ ev, P σ →
      Steps (locking M L) (fun σ a => performs guard σ a = true) σ n τ ev → P τ) (hσ : P σ) :
    ∃ n τ ev, Steps (locking M L) (fun σ a => performs guard σ a = true) σ n τ ev ∧
      ∀ t, τ.phase t = .free := by
  induction hcard : (busyThreads σ).card using Nat.strong_induction_on generalizing σ with
  | _ k ih =>
    by_cases hfree : ∀ t, σ.phase t = .free
    · exact ⟨0,σ,[],.refl,hfree⟩
    have hless : ∀ {n τ ev}, Steps (locking M L) (fun σ a => performs guard σ a = true) σ n τ ev →
        (busyThreads τ).card < (busyThreads σ).card → ∃ n τ ev,
          Steps (locking M L) (fun σ a => performs guard σ a = true) σ n τ ev ∧
            ∀ t, τ.phase t = .free := by
      intro n τ ev hsteps hlt
      obtain ⟨m,υ,ev',hrest,hυ⟩ := ih _ (hcard ▸ hlt) (hstep _ _ _ _ hσ hsteps) rfl
      exact ⟨n + m,υ,ev ++ ev',hsteps.trans hrest,hυ⟩
    by_cases hholds : ∃ t m, σ.phase t = .holding m
    · obtain ⟨t,m,ht⟩ := hholds
      obtain ⟨τ,ev,hsteps,hphase⟩ := (hplaced σ hσ).release (hlive σ hσ) ht
      exact hless hsteps (card_busyThreads (by simp [ht]) hphase)
    · -- nobody holds a mutex, so one who waits gets it and then lets go of it
      push Not at hfree hholds
      obtain ⟨t,ht⟩ := hfree
      cases hwait : σ.phase t with
      | free => exact absurd hwait ht
      | holding m => exact absurd hwait (hholds t m)
      | waiting m =>
        have hacquire : Steps (locking M L) (fun σ a => performs guard σ a = true) σ 1
            (σ.setPhase t (.holding m)) [] :=
          .single (a:=.acquire t) rfl (by
            simp only [locking,lockStep,hwait]
            rw [if_pos fun u => hholds u m])
        have hP := hstep _ _ _ _ hσ hacquire
        obtain ⟨τ,ev,hsteps,hphase⟩ := (hplaced _ hP).release (hlive _ hP) (t:=t) (m:=m) (by simp)
        refine hless (hacquire.trans hsteps) (card_busyThreads ht ?_)
        rw [hphase]
        simp [LockState.setPhase]

end locks

end EventMachine

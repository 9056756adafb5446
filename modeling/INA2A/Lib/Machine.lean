import Mathlib

/-! Labelled machines with an event history.
A machine has initial states and a partial step that emits observable events.
Runs may be restricted by a guard on the steps they take. -/
namespace EventMachine

structure Machine (S A E : Type) where
  init : S → Prop
  step : S → A → Option (S × List E)

variable {S A E : Type} {M : Machine S A E}

/-- States reached by steps that all meet `ok`, with the events emitted on the way. -/
inductive RunOn (M : Machine S A E) (ok : S → A → Prop) : S → List E → Prop
  | start {s : S} : M.init s → RunOn M ok s []
  | next {s s' : S} {h ev : List E} {a : A} :
      RunOn M ok s h → ok s a → M.step s a = some (s',ev) → RunOn M ok s' (h ++ ev)

abbrev Run (M : Machine S A E) : S → List E → Prop := RunOn M fun _ _ => True

theorem Run.step {s s' : S} {h ev : List E} {a : A} (hr : Run M s h)
    (hs : M.step s a = some (s',ev)) : Run M s' (h ++ ev) :=
  RunOn.next hr trivial hs

theorem RunOn.weaken {ok ok' : S → A → Prop} (himp : ∀ s a, ok s a → ok' s a)
    {s : S} {h : List E} (hr : RunOn M ok s h) : RunOn M ok' s h := by
  induction hr with
  | start hi => exact .start hi
  | next _ hok hs ih => exact .next ih (himp _ _ hok) hs

theorem RunOn.run {ok : S → A → Prop} {s : S} {h : List E} (hr : RunOn M ok s h) : Run M s h :=
  hr.weaken fun _ _ _ => trivial

/-- What holds at the start and survives every allowed step of a run holds on every run. -/
theorem RunOn.invariant {ok : S → A → Prop} {P : S → List E → Prop}
    (h0 : ∀ s, M.init s → P s [])
    (hstep : ∀ s h a s' ev, RunOn M ok s h → P s h → ok s a →
      M.step s a = some (s',ev) → P s' (h ++ ev))
    {s : S} {h : List E} (hr : RunOn M ok s h) : P s h := by
  induction hr with
  | start hi => exact h0 _ hi
  | next hr hok hs ih => exact hstep _ _ _ _ _ hr ih hok hs

theorem RunOn.fired {ok : S → A → Prop} {s : S} {h : List E} (hr : RunOn M ok s h) :
    ∀ pre e post, h = pre ++ e::post → ∃ t k a t' ev₁ ev₂, RunOn M ok t k ∧ ok t a ∧
      M.step t a = some (t',ev₁ ++ e::ev₂) ∧ pre = k ++ ev₁ := by
  induction hr with
  | start _ => simp
  | @next s s' h ev a hr hok hs ih =>
    intro pre e post he
    rcases List.append_eq_append_iff.mp he with ⟨mid,rfl,hmid⟩ | ⟨mid,rfl,hmid⟩
    · exact ⟨s,h,a,s',mid,post,hr,hok,by rw [hs,hmid],rfl⟩
    · cases mid with
      | nil => exact ⟨s,pre,a,s',[],post,by simpa using hr,hok,by simpa [hs] using hmid.symm,by simp⟩
      | cons e' mid =>
        simp only [List.cons_append,List.cons.injEq] at hmid
        obtain ⟨rfl,rfl⟩ := hmid
        exact ih pre e mid rfl

section stretches

variable {ok ok' : S → A → Prop} {s t u : S} {n m : ℕ} {h h' : List E}

inductive Steps (M : Machine S A E) (ok : S → A → Prop) (s : S) : ℕ → S → List E → Prop
  | refl : Steps M ok s 0 s []
  | tail {n : ℕ} {t t' : S} {h ev : List E} {a : A} :
      Steps M ok s n t h → ok t a → M.step t a = some (t',ev) → Steps M ok s (n + 1) t' (h ++ ev)

theorem Steps.single {a : A} (hok : ok s a) (hs : M.step s a = some (t,h)) : Steps M ok s 1 t h := by
  simpa using Steps.tail .refl hok hs

theorem Steps.trans (h₁ : Steps M ok s n t h) (h₂ : Steps M ok t m u h') :
    Steps M ok s (n + m) u (h ++ h') := by
  induction h₂ with
  | refl => simpa using h₁
  | tail _ hok hs ih =>
    rw [← List.append_assoc]
    exact ih.tail hok hs

theorem Steps.weaken (himp : ∀ s a, ok s a → ok' s a) (hsteps : Steps M ok s n t h) :
    Steps M ok' s n t h := by
  induction hsteps with
  | refl => exact .refl
  | tail _ hok hs ih => exact ih.tail (himp _ _ hok) hs

theorem RunOn.steps (hr : RunOn M ok s h) (hsteps : Steps M ok s n t h') :
    RunOn M ok t (h ++ h') := by
  induction hsteps with
  | refl => simpa using hr
  | tail _ hok hs ih =>
    rw [← List.append_assoc]
    exact ih.next hok hs

end stretches

/-- The machine that also shows what `obs` sees of each step. -/
def Machine.watch {F : Type} (M : Machine S A E) (obs : S → A → List F) : Machine S A (E ⊕ F) where
  init := M.init
  step s a := (M.step s a).map fun r => (r.1,r.2.map .inl ++ (obs s a).map .inr)

/-- What was seen of a run besides its events. -/
def seen {F : Type} (h : List (E ⊕ F)) : List F := h.filterMap Sum.getRight?

def shown {F : Type} (h : List (E ⊕ F)) : List E := h.filterMap Sum.getLeft?

section watch

variable {F : Type} {obs : S → A → List F}

theorem seen_append (h h' : List (E ⊕ F)) : seen (h ++ h') = seen h ++ seen h' := by
  simp [seen]

theorem shown_append (h h' : List (E ⊕ F)) : shown (h ++ h') = shown h ++ shown h' := by
  simp [shown]

theorem watch_step {s s' : S} {a : A} {ev : List (E ⊕ F)} (hs : (M.watch obs).step s a = some (s',ev)) :
    M.step s a = some (s',shown ev) ∧ seen ev = obs s a := by
  obtain ⟨⟨t,ev'⟩,hstep,heq⟩ := Option.map_eq_some_iff.mp hs
  obtain ⟨rfl,rfl⟩ := Prod.mk.inj heq
  rw [hstep]
  constructor
  · simp [shown,List.filterMap_map,Function.comp_def]
  · simp [seen,List.filterMap_map,Function.comp_def]

theorem RunOn.unwatched {ok : S → A → Prop} {s : S} {h : List (E ⊕ F)}
    (hr : RunOn (M.watch obs) ok s h) : RunOn M ok s (shown h) := by
  induction hr with
  | start hi => exact .start hi
  | next _ hok hs ih =>
    rw [shown_append]
    exact ih.next hok (watch_step hs).1

end watch

/-- Replay a list of actions, refusing the steps that `ok` rejects. -/
def replay (M : Machine S A E) (ok : S → A → Bool) : S → List A → Option (S × List E)
  | s, [] => some (s,[])
  | s, a::as =>
    if ok s a then
      match M.step s a with
      | none => none
      | some (s',ev) =>
        match replay M ok s' as with
        | none => none
        | some (t,evs) => some (t,ev ++ evs)
    else none

theorem replay_steps {ok : S → A → Bool} {s t : S} {evs : List E} {as : List A}
    (hp : replay M ok s as = some (t,evs)) :
    Steps M (fun s a => ok s a = true) s as.length t evs := by
  induction as generalizing s evs with
  | nil =>
    simp only [replay,Option.some.injEq,Prod.mk.injEq] at hp
    obtain ⟨rfl,rfl⟩ := hp
    exact .refl
  | cons a as ih =>
    simp only [replay] at hp
    split at hp
    · rename_i hok
      split at hp
      · cases hp
      · rename_i s' ev hs
        split at hp
        · cases hp
        · rename_i t' evs' hrest
          simp only [Option.some.injEq,Prod.mk.injEq] at hp
          obtain ⟨rfl,rfl⟩ := hp
          have hone : Steps M (fun s a => ok s a = true) s 1 s' ev := .single hok hs
          rw [List.length_cons,Nat.add_comm]
          exact hone.trans (ih hrest)
    · cases hp

theorem exists_run_of_replay (M : Machine S A E) (ok : S → A → Bool) (s : S) (as : List A)
    (P : S → List E → Bool) (h0 : M.init s) (hp : (replay M ok s as).any (fun r => P r.1 r.2) = true) :
    ∃ t h, RunOn M (fun s a => ok s a = true) t h ∧ P t h = true := by
  cases hr : replay M ok s as with
  | none => simp [hr] at hp
  | some r =>
    refine ⟨r.1,[] ++ r.2,(RunOn.start h0).steps (replay_steps hr),?_⟩
    simpa [hr] using hp

variable {T F : Type} {move : T → List F → T → Prop}

/-- Finitely many moves of a labelled transition relation, with their labels in order. -/
inductive Moves (move : T → List F → T → Prop) (t₀ : T) : List F → T → Prop
  | refl : Moves move t₀ [] t₀
  | tail {tr ls : List F} {t t' : T} :
      Moves move t₀ tr t → move t ls t' → Moves move t₀ (tr ++ ls) t'

theorem Moves.single {t t' : T} {ls : List F} (h : move t ls t') : Moves move t ls t' := by
  simpa using Moves.tail .refl h

theorem Moves.silent {t₀ t t' : T} {tr : List F} (h : Moves move t₀ tr t) (hm : move t [] t') :
    Moves move t₀ tr t' := by
  simpa using h.tail hm

theorem Moves.trans {t₀ t t' : T} {tr tr' : List F} (h : Moves move t₀ tr t)
    (h' : Moves move t tr' t') : Moves move t₀ (tr ++ tr') t' := by
  induction h' with
  | refl => simpa using h
  | tail _ hm ih =>
    rw [← List.append_assoc]
    exact ih.tail hm

theorem Moves.invariant {P : T → List F → Prop} {t₀ t : T} {tr : List F} (h0 : P t₀ [])
    (hmove : ∀ t tr t' ls, P t tr → move t ls t' → P t' (tr ++ ls))
    (h : Moves move t₀ tr t) : P t tr := by
  induction h with
  | refl => exact h0
  | tail _ hm ih => exact hmove _ _ _ _ ih hm

/-- A relation that holds at the start, and that every step of the machine keeps up to
finitely many moves showing what the step showed, holds along every run. -/
theorem RunOn.simulated {ok : S → A → Prop} {R : S → T → Prop} {obs : E → Option F} {t₀ : T}
    (h0 : ∀ s, M.init s → R s t₀)
    (hstep : ∀ s h a s' ev t, RunOn M ok s h → R s t → Moves move t₀ (h.filterMap obs) t →
      ok s a → M.step s a = some (s',ev) → ∃ t', Moves move t (ev.filterMap obs) t' ∧ R s' t')
    {s : S} {h : List E} (hr : RunOn M ok s h) :
    ∃ t, R s t ∧ Moves move t₀ (h.filterMap obs) t := by
  induction hr with
  | start hi => exact ⟨t₀,h0 _ hi,.refl⟩
  | next hr hok hs ih =>
    obtain ⟨t,hR,hmoves⟩ := ih
    obtain ⟨t',hmoves',hR'⟩ := hstep _ _ _ _ _ _ hr hR hmoves hok hs
    refine ⟨t',hR',?_⟩
    rw [List.filterMap_append]
    exact hmoves.trans hmoves'

end EventMachine

import Mathlib

/-! Maps that are ordered by a Boolean less-than, and operations that act at one key of them.
Two keys are the same entry when neither is less than the other. -/
namespace OrderedMap

variable {α β κ ρ : Type*} {w : ℕ}

/-- `lt` is a strict total order on the values of `f`. -/
structure OrdersBy (lt : α → α → Bool) (f : α → κ) : Prop where
  irrefl : ∀ a b, f a = f b → lt a b = false
  trans : ∀ a b c, lt a b = true → lt b c = true → lt a c = true
  connected : ∀ a b, f a ≠ f b → lt a b = true ∨ lt b a = true

abbrev StrictTotal (lt : α → α → Bool) : Prop := OrdersBy lt id

theorem ordersBy_field (p : α → BitVec w) : OrdersBy (fun a b => decide (p a < p b)) p where
  irrefl a b h := by simp [h]
  trans a b c hab hbc := by
    simp only [decide_eq_true_eq,BitVec.lt_def] at *
    omega
  connected a b h := by
    simp only [decide_eq_true_eq,BitVec.lt_def]
    exact Nat.lt_or_gt_of_ne fun heq => h (BitVec.eq_of_toNat_eq heq)

/-- The field `p` decides unless it is equal. -/
def firstBy (p : α → BitVec w) (lt : α → α → Bool) (a b : α) : Bool :=
  if p a ≠ p b then decide (p a < p b) else lt a b

theorem OrdersBy.firstBy {lt : α → α → Bool} {f : α → κ} (h : OrdersBy lt f)
    (p : α → BitVec w) : OrdersBy (firstBy p lt) fun a => (p a,f a) where
  irrefl a b heq := by
    obtain ⟨hp,hf⟩ := Prod.mk.inj heq
    rw [OrderedMap.firstBy,if_neg (not_not.mpr hp)]
    exact h.irrefl a b hf
  trans a b c hab hbc := by
    unfold OrderedMap.firstBy at *
    by_cases hpab : p a = p b
    · rw [if_neg (not_not.mpr hpab)] at hab
      by_cases hpbc : p b = p c
      · rw [if_neg (not_not.mpr hpbc)] at hbc
        rw [if_neg (not_not.mpr (hpab.trans hpbc))]
        exact h.trans a b c hab hbc
      · rw [hpab]
        rwa [if_pos hpbc] at hbc ⊢
    · rw [if_pos hpab] at hab
      by_cases hpbc : p b = p c
      · rw [← hpbc]
        rwa [if_pos hpab]
      · rw [if_pos hpbc] at hbc
        have hlt := (ordersBy_field p).trans a b c hab hbc
        have hne : p a ≠ p c := by
          intro heq
          rw [(ordersBy_field p).irrefl a c heq] at hlt
          cases hlt
        rwa [if_pos hne]
  connected a b hne := by
    unfold OrderedMap.firstBy
    by_cases hp : p a = p b
    · rw [if_neg (not_not.mpr hp),if_neg (not_not.mpr hp.symm)]
      apply h.connected
      intro hf
      exact hne (Prod.ext hp hf)
    · rw [if_pos hp,if_pos (Ne.symm hp)]
      exact (ordersBy_field p).connected a b hp

theorem OrdersBy.strictTotal {lt : α → α → Bool} {f : α → κ} (h : OrdersBy lt f)
    (hf : Function.Injective f) : StrictTotal lt where
  irrefl a b heq := h.irrefl a b (congrArg f heq)
  trans := h.trans
  connected a b hne := h.connected a b fun heq => hne (hf heq)

theorem OrdersBy.asymm {lt : α → α → Bool} {f : α → κ} (h : OrdersBy lt f) {a b : α}
    (hab : lt a b = true) : lt b a = false := by
  by_contra hba
  rw [Bool.not_eq_false] at hba
  have haa := h.trans a b a hab hba
  rw [h.irrefl a a rfl] at haa
  cases haa

/-- Neither less than the other: the same entry of a map. -/
theorem StrictTotal.same_iff {lt : α → α → Bool} (h : StrictTotal lt) {a b : α} :
    lt a b = false ∧ lt b a = false ↔ a = b := by
  constructor
  · rintro ⟨hab,hba⟩
    by_contra hne
    rcases h.connected a b hne with hlt | hlt
    · rw [hab] at hlt
      cases hlt
    · rw [hba] at hlt
      cases hlt
  · rintro rfl
    exact ⟨h.irrefl a a rfl,h.irrefl a a rfl⟩

def cmpOf (lt : α → α → Bool) (a b : α) : Ordering :=
  if lt a b then .lt else if lt b a then .gt else .eq

theorem cmpOf_eq_iff {lt : α → α → Bool} (h : StrictTotal lt) {a b : α} :
    cmpOf lt a b = .eq ↔ a = b := by
  rw [← h.same_iff,cmpOf]
  cases lt a b <;> cases lt b a <;> simp

theorem cmpOf_isLE {lt : α → α → Bool} (h : StrictTotal lt) {a b : α} :
    (cmpOf lt a b).isLE = true ↔ lt b a = false := by
  rw [cmpOf]
  cases hab : lt a b with
  | true => simp [h.asymm hab]
  | false => cases hba : lt b a <;> simp

theorem StrictTotal.transCmp {lt : α → α → Bool} (h : StrictTotal lt) :
    Std.TransCmp (cmpOf lt) where
  eq_swap {a b} := by
    unfold cmpOf
    cases hab : lt a b with
    | true => simp [h.asymm hab]
    | false => cases hba : lt b a <;> simp
  isLE_trans {a b c} hab hbc := by
    rw [cmpOf_isLE h] at *
    by_contra hca
    rw [Bool.not_eq_false] at hca
    -- `c < a` and `¬ b < a` give `c < b` or `c = b`
    by_cases heq : a = b
    · subst heq
      rw [hbc] at hca
      cases hca
    · rcases h.connected a b heq with hlt | hlt
      · have := h.trans c a b hca hlt
        rw [hbc] at this
        cases this
      · rw [hab] at hlt
        cases hlt

theorem StrictTotal.lawfulEqCmp {lt : α → α → Bool} (h : StrictTotal lt) :
    Std.LawfulEqCmp (cmpOf lt) where
  compare_self := (cmpOf_eq_iff h).mpr rfl
  eq_of_compare := (cmpOf_eq_iff h).mp

variable {cmp : α → α → Ordering} [Std.TransCmp cmp]

/-- The operation reads and writes the entry of `k` only. -/
structure ActsAt (k : α) (op : Std.ExtTreeMap α β cmp → Std.ExtTreeMap α β cmp × ρ) : Prop where
  frame : ∀ m k', k' ≠ k → (op m).1[k']? = m[k']?
  entry : ∀ m m', m[k]? = m'[k]? → (op m).1[k]? = (op m').1[k]?
  reply : ∀ m m', m[k]? = m'[k]? → (op m).2 = (op m').2

theorem ActsAt.pure (k : α) (r : ρ) :
    ActsAt k fun m : Std.ExtTreeMap α β cmp => (m,r) where
  frame _ _ _ := rfl
  entry _ _ h := h
  reply _ _ _ := rfl

theorem ActsAt.bind {σ : Type*} {k : α}
    {op : Std.ExtTreeMap α β cmp → Std.ExtTreeMap α β cmp × ρ}
    {next : ρ → Std.ExtTreeMap α β cmp → Std.ExtTreeMap α β cmp × σ}
    (hop : ActsAt k op) (hnext : ∀ r, ActsAt k (next r)) :
    ActsAt k fun m => next (op m).2 (op m).1 where
  frame m k' hne := ((hnext _).frame _ k' hne).trans (hop.frame m k' hne)
  entry m m' h := by
    rw [hop.reply m m' h]
    exact (hnext _).entry _ _ (hop.entry m m' h)
  reply m m' h := by
    rw [hop.reply m m' h]
    exact (hnext _).reply _ _ (hop.entry m m' h)

theorem ActsAt.map {σ : Type*} {k : α}
    {op : Std.ExtTreeMap α β cmp → Std.ExtTreeMap α β cmp × ρ} (hop : ActsAt k op) (f : ρ → σ) :
    ActsAt k fun m => ((op m).1,f (op m).2) :=
  hop.bind fun r => ActsAt.pure k (f r)

theorem ActsAt.lookup {k : α} {op : Std.ExtTreeMap α β cmp → Std.ExtTreeMap α β cmp × ρ}
    (hop : ∀ e, ∃ next, ActsAt k next ∧ ∀ m, m[k]? = e → op m = next m) : ActsAt k op where
  frame m k' hne := by
    obtain ⟨next,hnext,heq⟩ := hop m[k]?
    rw [heq m rfl]
    exact hnext.frame m k' hne
  entry m m' h := by
    obtain ⟨next,hnext,heq⟩ := hop m[k]?
    rw [heq m rfl,heq m' h.symm]
    exact hnext.entry m m' h
  reply m m' h := by
    obtain ⟨next,hnext,heq⟩ := hop m[k]?
    rw [heq m rfl,heq m' h.symm]
    exact hnext.reply m m' h

variable {k k' : α} {op op' : Std.ExtTreeMap α β cmp → Std.ExtTreeMap α β cmp × ρ}

/-- Operations at different keys give the same replies in either order. -/
theorem ActsAt.reply_after (hop : ActsAt k op) (hop' : ActsAt k' op') (hne : k ≠ k')
    (m : Std.ExtTreeMap α β cmp) : (op' (op m).1).2 = (op' m).2 :=
  hop'.reply _ _ (hop.frame m k' hne.symm)

section Lawful
variable [Std.LawfulEqCmp cmp]

theorem ActsAt.insert (k : α) (v : β) (r : ρ) :
    ActsAt k fun m : Std.ExtTreeMap α β cmp => (m.insert k v,r) where
  frame m k' hne := by
    rw [Std.ExtTreeMap.getElem?_insert,if_neg]
    intro heq
    exact hne (Std.LawfulEqCmp.eq_of_compare heq).symm
  entry m m' _ := by simp
  reply _ _ _ := rfl

theorem ActsAt.erase (k : α) (r : ρ) :
    ActsAt k fun m : Std.ExtTreeMap α β cmp => (m.erase k,r) where
  frame m k' hne := by
    rw [Std.ExtTreeMap.getElem?_erase,if_neg]
    intro heq
    exact hne (Std.LawfulEqCmp.eq_of_compare heq).symm
  entry m m' _ := by simp
  reply _ _ _ := rfl

theorem ActsAt.commute (hop : ActsAt k op) (hop' : ActsAt k' op') (hne : k ≠ k')
    (m : Std.ExtTreeMap α β cmp) : (op' (op m).1).1 = (op (op' m).1).1 := by
  apply Std.ExtTreeMap.ext_getElem?
  intro j
  by_cases hj : j = k
  · subst hj
    rw [hop'.frame _ j hne]
    exact hop.entry _ _ (hop'.frame m j hne).symm
  · rw [hop.frame _ j hj]
    by_cases hj' : j = k'
    · subst hj'
      exact hop'.entry _ _ (hop.frame m j hj)
    · rw [hop'.frame _ j hj',hop'.frame _ j hj',hop.frame _ j hj]

end Lawful

end OrderedMap

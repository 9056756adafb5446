import Mathlib

/-! Tagged items spread over places.  A stock prescribes, for every place and tag, which
items with that tag are there; moving items changes the stock at one place and tag only. -/
namespace Inventory

variable {ι τ α : Type} [DecidableEq τ] {tag : α → Option τ}
variable {I I' : ι → Multiset α} {stock stock' : ι → τ → Multiset α}

/-- At every place the items of each tag are exactly those the stock prescribes; items
without a tag are not accounted for. -/
def Stocked (tag : α → Option τ) (I : ι → Multiset α) (stock : ι → τ → Multiset α) : Prop :=
  ∀ p t, (I p).filter (fun x => tag x = some t) = stock p t

theorem Stocked.mem (h : Stocked tag I stock) {p : ι} {t : τ} {x : α} (hx : x ∈ I p)
    (ht : tag x = some t) : x ∈ stock p t := by
  rw [← h p t]
  exact Multiset.mem_filter.mpr ⟨hx,ht⟩

theorem filter_tag {A : Multiset α} {t : Option τ} {u : τ} (hA : ∀ x ∈ A, tag x = t) :
    A.filter (fun x => tag x = some u) = if t = some u then A else 0 := by
  split_ifs with htu
  · subst htu
    exact Multiset.filter_eq_self.mpr hA
  · refine Multiset.filter_eq_nil.mpr ?_
    intro x hx
    rw [hA x hx]
    exact htu

variable [DecidableEq ι]

/-- Taking the items `A` of tag `t` away from place `p` and putting `B` of that tag there
turns a stock that prescribes `A` there into one that prescribes `B`. -/
theorem Stocked.exchange (h : Stocked tag I stock) {p : ι} {t : τ} {A B : Multiset α}
    (hI : I' + Pi.single p A = I + Pi.single p B)
    (hA : ∀ x ∈ A, tag x = some t) (hB : ∀ x ∈ B, tag x = some t)
    (hold : stock p t = A) (hnew : stock' p t = B)
    (hrest : ∀ q u, (q,u) ≠ (p,t) → stock' q u = stock q u) : Stocked tag I' stock' := by
  intro q u
  have hq := congrArg (Multiset.filter fun x => tag x = some u) (congrFun hI q)
  simp only [Pi.add_apply,Multiset.filter_add,h q u] at hq
  by_cases hqp : q = p
  · subst hqp
    simp only [Pi.single_eq_same,filter_tag hA,filter_tag hB] at hq
    by_cases htu : t = u
    · subst htu
      simp only [if_true,hold] at hq
      rw [hnew]
      exact add_right_cancel (hq.trans (add_comm A B))
    · rw [hrest q u (by simp [Ne.symm htu])]
      simpa [htu] using hq
  · rw [hrest q u (by simp [hqp])]
    simpa [Pi.single_eq_of_ne hqp] using hq

theorem Stocked.untagged (h : Stocked tag I stock) {p : ι} {A B : Multiset α}
    (hI : I' + Pi.single p A = I + Pi.single p B)
    (hA : ∀ x ∈ A, tag x = none) (hB : ∀ x ∈ B, tag x = none) : Stocked tag I' stock := by
  intro q u
  have hq := congrArg (Multiset.filter fun x => tag x = some u) (congrFun hI q)
  simp only [Pi.add_apply,Multiset.filter_add,h q u] at hq
  by_cases hqp : q = p
  · subst hqp
    simpa [filter_tag hA,filter_tag hB] using hq
  · simpa [Pi.single_eq_of_ne hqp] using hq

theorem mem_of_exchange {p q : ι} {A B : Multiset α} (hI : I' + Pi.single p A = I + Pi.single p B)
    {x : α} (hx : x ∈ I' q) : x ∈ I q ∨ q = p ∧ x ∈ B := by
  have hq := congrFun hI q
  simp only [Pi.add_apply] at hq
  have hmem : x ∈ I q + (Pi.single p B : ι → Multiset α) q := by
    rw [← hq]
    exact Multiset.mem_add.mpr (Or.inl hx)
  rcases Multiset.mem_add.mp hmem with hmem | hmem
  · exact Or.inl hmem
  · by_cases hqp : q = p
    · subst hqp
      exact Or.inr ⟨rfl,by simpa using hmem⟩
    · simp [Pi.single_eq_of_ne hqp] at hmem

theorem exchange_of_place {p : ι} {A B : Multiset α} (hoff : ∀ q, q ≠ p → I' q = I q)
    (hon : I' p + A = I p + B) : I' + Pi.single p A = I + Pi.single p B := by
  funext q
  by_cases hq : q = p
  · subst hq
    simpa using hon
  · simp [hoff q hq,hq]

theorem sum_of_exchange [Fintype ι] {p : ι} {A B : Multiset α}
    (hI : I' + Pi.single p A = I + Pi.single p B) : ∑ q, I' q + A = ∑ q, I q + B := by
  have hsum := congrArg (fun J : ι → Multiset α => ∑ q, J q) hI
  simpa [Finset.sum_add_distrib] using hsum

def bag {β : Type} (f : β → α) (l : List β) : Multiset α := ↑(l.map f)

variable {β : Type} {f : β → α}

@[simp] theorem bag_nil : bag f [] = 0 := rfl
@[simp] theorem bag_cons (b : β) (l : List β) : bag f (b::l) = {f b} + bag f l := rfl
@[simp] theorem bag_append (l l' : List β) : bag f (l ++ l') = bag f l + bag f l' := by
  simp [bag]

theorem mem_bag {x : α} {l : List β} : x ∈ bag f l ↔ ∃ b ∈ l, f b = x := by
  simp [bag]

theorem bag_eraseIdx {l : List β} {i : ℕ} {b : β} (hb : l[i]? = some b) :
    bag f (l.eraseIdx i) + {f b} = bag f l := by
  obtain ⟨hi,rfl⟩ := List.getElem?_eq_some_iff.mp hb
  have hperm := List.getElem_cons_eraseIdx_perm hi
  rw [add_comm,← bag_cons]
  exact Multiset.coe_eq_coe.mpr (hperm.map f)

theorem bag_eq_zero {l : List β} : bag f l = 0 ↔ l = [] := by
  simp [bag]

end Inventory

import Mathlib

/-! Resources that are acquired and released.  Each is known by a handle of its own and needs
others that were acquired before it.  Releasing a resource twice, or while another still needs
it, is a misuse and has no result. -/
namespace Ledgers

structure Entry (K : Type) where
  handle : ℕ
  kind : K
  needs : List ℕ
  deriving DecidableEq

/-- Whatever one of these needs is among them. -/
def Closed {K : Type} (m : Multiset (Entry K)) : Prop :=
  ∀ e ∈ m, ∀ n ∈ e.needs, n ∈ m.map Entry.handle

theorem Closed.add {K : Type} {m m' : Multiset (Entry K)} (h : Closed m) (h' : Closed m') :
    Closed (m + m') := by
  intro e he n hn
  rw [Multiset.map_add]
  rcases Multiset.mem_add.mp he with he | he
  · exact Multiset.mem_add.mpr (.inl (h e he n hn))
  · exact Multiset.mem_add.mpr (.inr (h' e he n hn))

/-- The resources that are held. -/
structure Ledger (K : Type) where
  next : ℕ
  live : Multiset (Entry K)
  fresh : ∀ e ∈ live, e.handle < next
  distinct : (live.map Entry.handle).Nodup
  closed : Closed live

variable {K : Type}

def Ledger.empty : Ledger K where
  next := 0
  live := 0
  fresh := by simp
  distinct := by simp
  closed := by simp [Closed]

/-- A new resource, which may need any that is held. -/
def Ledger.add (s : Ledger K) (kind : K) (needs : List ℕ)
    (h : ∀ n ∈ needs, n ∈ s.live.map Entry.handle) : Ledger K where
  next := s.next + 1
  live := ⟨s.next,kind,needs⟩ ::ₘ s.live
  fresh := by
    intro e he
    rcases Multiset.mem_cons.mp he with rfl | he
    · exact Nat.lt_succ_self _
    · exact (s.fresh e he).trans (Nat.lt_succ_self _)
  distinct := by
    rw [Multiset.map_cons,Multiset.nodup_cons]
    refine ⟨fun hmem => ?_,s.distinct⟩
    obtain ⟨e,he,heq⟩ := Multiset.mem_map.mp hmem
    exact (s.fresh e he).ne heq
  closed := by
    intro e he n hn
    rw [Multiset.map_cons]
    apply Multiset.mem_cons_of_mem
    rcases Multiset.mem_cons.mp he with rfl | he
    · exact h n hn
    · exact s.closed e he n hn

def Ledger.acquire (s : Ledger K) (kind : K) (needs : List ℕ) : Option (Entry K × Ledger K) :=
  if h : ∀ n ∈ needs, n ∈ s.live.map Entry.handle then
    some (⟨s.next,kind,needs⟩,s.add kind needs h)
  else none

variable [DecidableEq K]

def Ledger.Releasable (s : Ledger K) (e : Entry K) : Prop :=
  e ∈ s.live ∧ ∀ x ∈ s.live.erase e, e.handle ∉ x.needs

instance (s : Ledger K) (e : Entry K) : Decidable (s.Releasable e) :=
  inferInstanceAs (Decidable (_ ∧ _))

def Ledger.remove (s : Ledger K) (e : Entry K) (h : s.Releasable e) : Ledger K where
  next := s.next
  live := s.live.erase e
  fresh x hx := s.fresh x (Multiset.mem_of_mem_erase hx)
  distinct := Multiset.nodup_of_le (Multiset.map_le_map (Multiset.erase_le e s.live)) s.distinct
  closed := by
    intro x hx n hn
    obtain ⟨y,hy,rfl⟩ := Multiset.mem_map.mp (s.closed x (Multiset.mem_of_mem_erase hx) n hn)
    refine Multiset.mem_map_of_mem _ ((Multiset.mem_erase_of_ne ?_).mpr hy)
    rintro rfl
    exact h.2 x hx hn

def Ledger.release (s : Ledger K) (e : Entry K) : Option (Ledger K) :=
  if h : s.Releasable e then some (s.remove e h) else none

def Ledger.releaseAll : List (Entry K) → Ledger K → Option (Ledger K)
  | [], s => some s
  | e::l, s => (s.release e).bind (releaseAll l)

variable {s : Ledger K} {e : Entry K} {l l' : List (Entry K)} {m : Multiset (Entry K)}

omit [DecidableEq K] in
theorem Ledger.acquire_eq (kind : K) {needed : List (Entry K)} (h : ∀ x ∈ needed, x ∈ s.live) :
    ∃ s', s.acquire kind (needed.map Entry.handle) =
      some (⟨s.next,kind,needed.map Entry.handle⟩,s') ∧
      s'.live = ⟨s.next,kind,needed.map Entry.handle⟩ ::ₘ s.live ∧ s'.next = s.next + 1 := by
  have hlive : ∀ n ∈ needed.map Entry.handle, n ∈ s.live.map Entry.handle := by
    intro n hn
    obtain ⟨x,hx,rfl⟩ := List.mem_map.mp hn
    exact Multiset.mem_map_of_mem _ (h x hx)
  exact ⟨s.add kind _ hlive,dif_pos hlive,rfl,rfl⟩

theorem Ledger.release_eq (hlive : s.live = e ::ₘ m) (hneeds : ∀ x ∈ m, e.handle ∉ x.needs) :
    ∃ s', s.release e = some s' ∧ s'.live = m ∧ s'.next = s.next := by
  have herase : s.live.erase e = m := by rw [hlive,Multiset.erase_cons_head]
  have hok : s.Releasable e := ⟨by rw [hlive]; exact Multiset.mem_cons_self e m,by rwa [herase]⟩
  exact ⟨s.remove e hok,dif_pos hok,herase,rfl⟩

theorem Ledger.releaseAll_append :
    releaseAll (l ++ l') s = (releaseAll l s).bind (releaseAll l') := by
  induction l generalizing s with
  | nil => rfl
  | cons e l ih =>
    simp only [List.cons_append,releaseAll,Option.bind_assoc]
    congr 1
    funext s
    exact ih

/-- In this order each resource goes before those that it needs. -/
abbrev DependentsFirst (l : List (Entry K)) : Prop := l.Pairwise fun a b => a.handle ∉ b.needs

omit [DecidableEq K] in
theorem Ledger.needs_apart (hlive : s.live = (l : Multiset (Entry K)) + m) (hm : Closed m)
    {a b : Entry K} (ha : a ∈ l) (hb : b ∈ m) : a.handle ∉ b.needs := by
  intro hn
  have hdistinct := s.distinct
  rw [hlive,Multiset.map_add,Multiset.nodup_add] at hdistinct
  exact Multiset.disjoint_left.mp hdistinct.2.2 (Multiset.mem_map_of_mem _ (Multiset.mem_coe.mpr ha))
    (hm b hb _ hn)

/-- Resources on which no others depend are all released, those that need others first. -/
theorem Ledger.releaseAll_eq (hlive : s.live = (l : Multiset (Entry K)) + m) (hm : Closed m)
    (horder : DependentsFirst l) :
    ∃ s', releaseAll l s = some s' ∧ s'.live = m ∧ s'.next = s.next := by
  induction l generalizing s with
  | nil => exact ⟨s,rfl,by simpa using hlive,rfl⟩
  | cons e l ih =>
    obtain ⟨hhead,htail⟩ := List.pairwise_cons.mp horder
    have hcons : s.live = e ::ₘ ((l : Multiset (Entry K)) + m) := by
      rw [hlive,← Multiset.cons_coe,Multiset.cons_add]
    obtain ⟨s₁,hrelease,hlive₁,hnext₁⟩ := s.release_eq hcons fun x hx => by
      rcases Multiset.mem_add.mp hx with hx | hx
      · exact hhead x (Multiset.mem_coe.mp hx)
      · exact s.needs_apart hlive hm List.mem_cons_self hx
    obtain ⟨s₂,hall,hlive₂,hnext₂⟩ := ih hlive₁ htail
    exact ⟨s₂,by simp only [releaseAll,hrelease,Option.bind_some,hall],hlive₂,hnext₂.trans hnext₁⟩

omit [DecidableEq K] in
theorem DependentsFirst.insert {kind : K} {needed : List (Entry K)}
    (hlive : s.live = ((l ++ l' : List (Entry K)) : Multiset (Entry K)) + m)
    (horder : DependentsFirst (l ++ l')) (hneeded : ∀ x ∈ needed, x ∈ l') :
    DependentsFirst (l ++ ⟨s.next,kind,needed.map Entry.handle⟩::l') := by
  have hmem : ∀ x ∈ l ++ l', x ∈ s.live := by
    intro x hx
    rw [hlive]
    exact Multiset.mem_add.mpr (.inl (Multiset.mem_coe.mpr hx))
  obtain ⟨hl,hl',hcross⟩ := List.pairwise_append.mp horder
  refine List.pairwise_append.mpr ⟨hl,List.pairwise_cons.mpr ⟨?_,hl'⟩,?_⟩
  · -- what was there before needs nothing new
    intro b hb hn
    have hneed := s.closed b (hmem b (List.mem_append_right l hb)) _ hn
    obtain ⟨x,hx,heq⟩ := Multiset.mem_map.mp hneed
    exact (s.fresh x hx).ne heq
  · intro a ha b hb
    rcases List.mem_cons.mp hb with rfl | hb
    · intro hn
      obtain ⟨x,hx,heq⟩ := List.mem_map.mp hn
      have hdistinct := s.distinct
      rw [hlive,Multiset.map_add,Multiset.nodup_add,Multiset.map_coe,List.map_append,
        Multiset.coe_nodup] at hdistinct
      exact List.disjoint_of_nodup_append hdistinct.1 (List.mem_map_of_mem ha)
        (heq ▸ List.mem_map_of_mem (hneeded x hx))
    · exact hcross a ha b hb

omit [DecidableEq K] in
theorem Closed.insert {kind : K} {n : ℕ} {needed : List (Entry K)}
    (h : Closed ((l ++ l' : List (Entry K)) : Multiset (Entry K)))
    (hneeded : ∀ x ∈ needed, x ∈ l') :
    Closed ((l ++ ⟨n,kind,needed.map Entry.handle⟩::l' : List (Entry K)) : Multiset (Entry K)) := by
  intro a ha k hk
  simp only [Multiset.map_coe,Multiset.mem_coe,List.map_append,List.map_cons,List.mem_append,
    List.mem_cons] at ha ⊢
  by_cases hold : a ∈ l ++ l'
  · have hmem := h a (Multiset.mem_coe.mpr hold) k hk
    simp only [Multiset.map_coe,Multiset.mem_coe,List.map_append,List.mem_append] at hmem
    tauto
  · have hnew : a = ⟨n,kind,needed.map Entry.handle⟩ := by
      rw [List.mem_append] at hold
      tauto
    subst hnew
    obtain ⟨x,hx,rfl⟩ := List.mem_map.mp hk
    exact .inr (.inr (List.mem_map_of_mem (hneeded x hx)))

end Ledgers

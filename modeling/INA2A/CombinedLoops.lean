import INA2A.FourLoops

/-! In the combined loops one thread drains the send queue and reads.  It can be caught in a
write while its reader at the switch answers it, but only where enough messages are under way
at one host. -/
namespace INA2A

open ByteBuffers BitWords EventMachine Inventory

variable {N : ℕ} {c : Config N} {s : System N} {p : Progress (Fin N) U64} {h : Fin N}
  {hist : List (Event N)}

def Config.width (c : Config N) (h : Fin N) : ℕ :=
  min (c.args h).windowSize.toNat (c.num h)

/-- How many tokens choose expert `e` among those that a window of `o` holds from `base` on. -/
def Config.load (c : Config N) (o e : Fin N) (base : ℕ) : ℕ :=
  ((Finset.Ico base (base + c.width o)).filter fun i => i < c.num o ∧ e ∈ c.experts o i).card

/-- A host with tokens never meets more than two at a time besides one of its own: other
tokens in its window, and work for tokens in anybody's window. -/
def Config.Uncrowded (c : Config N) : Prop :=
  ∀ h, 0 < c.width h → ∀ base : Fin N → ℕ, c.width h - 1 + ∑ o, c.load o h (base o) ≤ 2

theorem stock_unique {t : Tag N} {x y : Item N} (hx : x ∈ c.stock p h t) (hy : y ∈ c.stock p h t) :
    x = y := by
  cases t with
  | main i =>
    simp only [Config.stock] at hx hy
    cases hst : p.stage h i <;> simp [hst,Stage.items] at hx hy <;> rw [hx,hy]
  | job o i =>
    simp only [Config.stock] at hx hy
    cases hj : p.job o i h <;> simp [hj,Job.items] at hx hy <;> rw [hx,hy]
  | fin =>
    simp only [Config.stock] at hx hy
    cases hfin : p.fin h <;> simp [hfin,Closing.items] at hx hy <;> rw [hx,hy]
  | junk => simp [Config.stock] at hx

/-- The tags that can have something under way at `h` before it closes. -/
def Config.busyTags (c : Config N) (h : Fin N) (base : Fin N → ℕ) : Finset (Tag N) :=
  (Finset.Ico (base h) (base h + c.width h)).image Tag.main ∪
    Finset.univ.biUnion fun o =>
      ((Finset.Ico (base o) (base o + c.width o)).filter
        fun i => i < c.num o ∧ h ∈ c.experts o i).image (Tag.job o)

theorem card_busyTags (c : Config N) (h : Fin N) (base : Fin N → ℕ) :
    (c.busyTags h base).card ≤ c.width h + ∑ o, c.load o h (base o) := by
  refine (Finset.card_union_le _ _).trans (Nat.add_le_add ?_ ?_)
  · refine Finset.card_image_le.trans ?_
    simp
  · refine Finset.card_biUnion_le.trans (Finset.sum_le_sum fun o _ => ?_)
    exact Finset.card_image_le

theorem Orderly.mem_window (hp : Orderly c.plan p) {o : Fin N} {i : ℕ}
    (hraw : p.stage o i ≠ .raw) (hdone : p.stage o i ≠ .done) :
    i ∈ Finset.Ico (p.base o) (p.base o + c.width o) := by
  have hnext : i < p.next o := by
    by_contra hle
    exact hraw ((hp.raw o i).mpr (by omega))
  have hbase : p.base o ≤ i := by
    by_contra hlt
    exact hdone (hp.base_done o i (by omega))
  have hnum : p.next o ≤ c.num o := hp.next_le o
  have hwindow : p.next o ≤ p.base o + (c.args o).windowSize.toNat := hp.next_window o
  rw [Finset.mem_Ico,Config.width]
  omega

theorem busy_of_stock (hp : Orderly c.plan p) {t : Tag N} {x : Item N}
    (hx : x ∈ c.stock p h t) (hfin : p.fin h = .unfinished) : t ∈ c.busyTags h p.base := by
  rw [Config.busyTags,Finset.mem_union]
  cases t with
  | main i =>
    refine .inl (Finset.mem_image_of_mem _ (hp.mem_window ?_ ?_)) <;> intro hst <;>
      simp [Config.stock,hst,Stage.items] at hx
  | job o i =>
    have hne : p.job o i h ≠ .absent := by
      intro hj
      simp [Config.stock,hj,Job.items] at hx
    have hpend : (p.job o i h).pending = true := by
      cases hj : p.job o i h <;> simp [Config.stock,hj,Job.items] at hx <;> rfl
    have hearly : (p.stage o i).early = false := by
      by_contra hearly
      exact hne (hp.early o i h (by simpa using hearly))
    have hlate : (p.stage o i).late = false := by
      by_contra hlate
      simp [hp.late o i h (by simpa using hlate)] at hpend
    have hmem := hp.mem_window (o:=o) (i:=i) (by rintro hst; simp [hst,Stage.early] at hearly)
      (by rintro hst; simp [hst,Stage.late] at hlate)
    refine .inr (Finset.mem_biUnion.mpr ⟨o,Finset.mem_univ o,Finset.mem_image_of_mem _ ?_⟩)
    exact Finset.mem_filter.mpr ⟨hmem,hp.lt_num_of_job hne,(hp.selected o i h hearly).mp hne⟩
  | fin => simp [Config.stock,hfin,Closing.items] at hx
  | junk => simp [Config.stock] at hx

def Item.inHand : Item N → Prop
  | .fan _ _ => True
  | .reply _ => True
  | _ => False

theorem stock_inHand {t : Tag N} {x : Item N} (hhand : x.inHand) (hx : x ∈ c.stock p h t) :
    ∃ i, t = .main i ∧ p.stage h i ≠ .raw ∧ p.stage h i ≠ .done := by
  cases t with
  | main i => refine ⟨i,rfl,?_,?_⟩ <;> intro hst <;> simp [Config.stock,hst,Stage.items] at hx
  | job o i =>
    simp only [Config.stock] at hx
    cases hj : p.job o i h <;> simp [hj,Job.items] at hx <;> subst hx <;> exact hhand.elim
  | fin =>
    simp only [Config.stock] at hx
    cases hfin : p.fin h <;> simp [hfin,Closing.items] at hx <;> subst hx <;> exact hhand.elim
  | junk => simp [Config.stock] at hx

theorem exists_inHand (hf : Follows c s p) (hmarked : ¬p.allMarked)
    (hsend : sendTarget h (s.switch.reader h) ≠ none) : ∃ x ∈ items s h, x.inHand := by
  have hserving := (hf.switchRunning hmarked).readers h
  have hmem : ∀ x, x ∈ (s.switch.reader h).items → x ∈ items s h := by
    intro x hx
    simp only [items,Multiset.mem_add]
    exact .inl (.inr hx)
  cases hpos : s.switch.reader h with
  | dispatching m rest => exact ⟨.fan m rest,hmem _ (by simp [hpos,ReaderPos.items]),trivial⟩
  | replying m => exact ⟨.reply m,hmem _ (by simp [hpos,ReaderPos.items]),trivial⟩
  | broadcasting rid rest => simp [hpos,ReaderPos.serving] at hserving
  | _ => simp [hpos,sendTarget] at hsend

/-- A host that is caught has four things under way: the message it writes, the one before it,
the one that its reader handles, and the one it does not read. -/
theorem caught_crowded (hf : Follows c s p) (hp : Orderly c.plan p)
    (hwrites : writesToSwitch s h = true) (hfull : s.toSwitch h ≠ []) (hunread : s.toHost h ≠ [])
    (hsend : sendTarget h (s.switch.reader h) ≠ none) :
    0 < c.width h ∧ 4 ≤ (c.busyTags h p.base).card := by
  obtain ⟨m₁,hm₁⟩ := writesToSwitch_iff.mp hwrites
  obtain ⟨m₂,rest₂,hm₂⟩ := List.exists_cons_of_ne_nil hfull
  obtain ⟨m₄,rest₄,hm₄⟩ := List.exists_cons_of_ne_nil hunread
  have hout : Item.out m₁ ∈ items s h := by
    simp [items,Host.items,hm₁,Sending.items]
  have hwire : Item.wire m₂ ∈ items s h := by
    simp [items,hm₂]
  have hdown : Item.down m₄ ∈ items s h := by
    simp [items,hm₄]
  have hmarked : ¬p.allMarked := by
    intro hall
    obtain ⟨rid,ts,hbad⟩ := hf.item_of_allMarked hp hall hout
    cases hbad
  obtain ⟨x,hx,hhand⟩ := exists_inHand hf hmarked hsend
  have htag : ∀ y ∈ items s h, ∃ t, y ∈ c.stock p h t := by
    intro y hy
    cases ht : y.tag with
    | none => exact absurd (hf.untagged h y hy ht).1 hmarked
    | some t => exact ⟨t,hf.stocked.mem hy ht⟩
  obtain ⟨t₁,h₁⟩ := htag _ hout
  obtain ⟨t₂,h₂⟩ := htag _ hwire
  obtain ⟨t₃,h₃⟩ := htag _ hx
  obtain ⟨t₄,h₄⟩ := htag _ hdown
  obtain ⟨i,rfl,hraw,hdone⟩ := stock_inHand hhand h₃
  have hfin : p.fin h = .unfinished := by
    by_contra hne
    rcases hp.closed hne i with ⟨hst,-⟩ | ⟨hst,-⟩
    · exact hdone hst
    · exact hraw hst
  have hwindow := Finset.mem_Ico.mp (hp.mem_window hraw hdone)
  refine ⟨by omega,?_⟩
  have hne : ∀ {t u : Tag N} {y z : Item N}, y ∈ c.stock p h t → z ∈ c.stock p h u → y ≠ z →
      t ≠ u := by
    rintro t _ y z hy hz hyz rfl
    exact hyz (stock_unique hy hz)
  have hcard : ({t₁,t₂,.main i,t₄} : Finset (Tag N)).card = 4 := by
    refine Finset.card_eq_four.mpr ⟨t₁,t₂,.main i,t₄,?_,?_,?_,?_,?_,?_,rfl⟩
    · exact hne h₁ h₂ (by simp)
    · exact hne h₁ h₃ (by rintro rfl; exact hhand)
    · exact hne h₁ h₄ (by simp)
    · exact hne h₂ h₃ (by rintro rfl; exact hhand)
    · exact hne h₂ h₄ (by simp)
    · exact hne h₃ h₄ (by rintro rfl; exact hhand)
  rw [← hcard]
  refine Finset.card_le_card ?_
  intro t ht
  simp only [Finset.mem_insert,Finset.mem_singleton] at ht
  rcases ht with rfl | rfl | rfl | rfl
  · exact busy_of_stock hp h₁ hfin
  · exact busy_of_stock hp h₂ hfin
  · exact busy_of_stock hp h₃ hfin
  · exact busy_of_stock hp h₄ hfin

theorem clear_of_uncrowded (hfew : c.Uncrowded) (hf : Follows c s p) (hp : Orderly c.plan p) :
    Clear c s := by
  intro h _ hwrites hfull hunread
  by_contra hsend
  obtain ⟨hwidth,hfour⟩ := caught_crowded hf hp hwrites hfull hunread hsend
  have hcard := card_busyTags c h p.base
  have htwo := hfew h hwidth p.base
  omega

/-- No thread waits for itself; in particular no thread of a host is blocked towards the
switch while the host's reader is blocked towards that thread. -/
structure NoCyclicWait (c : Config N) (σ : Threads N) : Prop where
  acyclic : ∀ t, ¬Relation.TransGen (WaitsFor c σ) t t
  uncaught : ∀ h, ¬(AwaitsRead c σ.state (c.thread h .send) (.reader h) ∧
    AwaitsRead c σ.state (.reader h) (c.thread h .send))

theorem uncrowded_no_cyclic_wait (c : Config N) (hfew : c.Uncrowded) {σ : Threads N}
    {hist : List (Event N)} (hr : ThreadRun c σ hist) : NoCyclicWait c σ := by
  obtain ⟨p,hf,hp⟩ := exists_progress hr.run
  have hacyclic := acyclic_of_clear hr (clear_of_uncrowded hfew hf hp)
  refine ⟨hacyclic,?_⟩
  rintro h ⟨hout,hback⟩
  exact hacyclic _ (.tail (.single (.read hout)) (.read hback))

theorem load_le_width (c : Config N) (o e : Fin N) (base : ℕ) : c.load o e base ≤ c.width o := by
  refine (Finset.card_filter_le _ _).trans ?_
  simp

/-- The dispatches of `n` tokens are in the send queue of a lone host with `io_combined_loop`. -/
def soloQueued (n : ℕ) : List (Action 1) :=
  [.accept 0,.start 0] ++ soloPush (n + 1) ++ (List.replicate n soloCompute).flatten

theorem uncrowded_no_cyclic_wait_sample : ∃ (σ : Threads 1) (hist : List (Event 1)),
    (soloConfig .ioCombined 1).Uncrowded ∧ ThreadRun (soloConfig .ioCombined 1) σ hist ∧
    AwaitsRead (soloConfig .ioCombined 1) σ.state (.reader 0) (.host 0 .read) ∧
    NoCyclicWait (soloConfig .ioCombined 1) σ := by
  obtain ⟨s,hist,hrun,hp⟩ := exists_run_of_replay (systemMachine (soloConfig .ioCombined 1))
    oneSlot (System.initial _) (soloQueued 1 ++ [.host 0 .send,.write 0] ++ soloReader 8)
    (fun s _ => (s.switch.writing 0).isSome && (sendTarget 0 (s.switch.reader 0) == some 0) &&
      !(s.toHost 0).isEmpty) rfl (by decide +kernel)
  simp only [Bool.and_eq_true,beq_iff_eq,Bool.not_eq_true',List.isEmpty_eq_false_iff] at hp
  obtain ⟨⟨hwriting,htarget⟩,hunread⟩ := hp
  obtain ⟨ts,hts⟩ := Option.isSome_iff_exists.mp hwriting
  have hfew : (soloConfig .ioCombined 1).Uncrowded := by
    intro h _ base
    have hload := load_le_width (soloConfig .ioCombined 1) 0 h (base 0)
    have hwidth : ∀ g, (soloConfig .ioCombined 1).width g = 1 := fun _ => rfl
    rw [hwidth] at hload ⊢
    rw [Fin.sum_univ_one]
    omega
  exact ⟨⟨s,fun _ => .free⟩,hist,hfew,hrun.locked,.reader 0 0 ts hts htarget hunread,
    uncrowded_no_cyclic_wait _ hfew hrun.locked⟩

/-- With three tokens in the window the host writes its third DISPATCH_TOKEN while the second
is unread, and the reader answers the first with an ACK behind an unread EXPERT_INPUT. -/
theorem combined_loop_deadlocks : ∃ (σ : Threads 1) (hist : List (Event 1)),
    ThreadRun (soloConfig .ioCombined 3) σ hist ∧
    AwaitsRead (soloConfig .ioCombined 3) σ.state (.host 0 .read) (.reader 0) ∧
    AwaitsRead (soloConfig .ioCombined 3) σ.state (.reader 0) (.host 0 .read) ∧
    ¬NoCyclicWait (soloConfig .ioCombined 3) σ := by
  obtain ⟨s,hist,hrun,hp⟩ := exists_run_of_replay (systemMachine (soloConfig .ioCombined 3))
    oneSlot (System.initial _) (soloQueued 3 ++ [.host 0 .send,.write 0] ++ soloReader 2 ++
      [.host 0 .send,.write 0] ++ soloReader 6 ++ [.host 0 .send])
    (fun s _ => writesToSwitch s 0 && !(s.toSwitch 0).isEmpty && (s.switch.writing 0).isSome &&
      (sendTarget 0 (s.switch.reader 0) == some 0) && !(s.toHost 0).isEmpty) rfl
    (by decide +kernel)
  simp only [Bool.and_eq_true,beq_iff_eq,Bool.not_eq_true',List.isEmpty_eq_false_iff] at hp
  obtain ⟨⟨⟨⟨hwrites,hfull⟩,hwriting⟩,htarget⟩,hunread⟩ := hp
  obtain ⟨m,hm⟩ := writesToSwitch_iff.mp hwrites
  obtain ⟨ts,hts⟩ := Option.isSome_iff_exists.mp hwriting
  have hout : AwaitsRead (soloConfig .ioCombined 3) s (.host 0 .read) (.reader 0) :=
    .host 0 m hm hfull
  have hback : AwaitsRead (soloConfig .ioCombined 3) s (.reader 0) (.host 0 .read) :=
    .reader 0 0 ts hts htarget hunread
  exact ⟨⟨s,fun _ => .free⟩,hist,hrun.locked,hout,hback,fun hno => hno.uncaught 0 ⟨hout,hback⟩⟩

end INA2A

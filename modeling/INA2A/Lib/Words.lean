import Mathlib

/-! Machine words as sets of bit positions. -/
namespace BitWords

variable {w : ℕ}

/-- The word whose only set bit is `e` (zero when `e` is past the width). -/
def bit (w e : ℕ) : BitVec w := 1#w <<< e

theorem getLsbD_bit (e i : ℕ) : (bit w e).getLsbD i = (decide (i = e) && decide (e < w)) := by
  by_cases hi : i < w
  · by_cases he : i = e
    · subst he
      simp [bit,hi]
    · by_cases hlt : i < e
      · simp [bit,hi,he,hlt]
      · have h : i - e ≠ 0 := by omega
        simp [bit,he,h,BitVec.getLsbD_one]
  · rw [BitVec.getLsbD_of_ge _ _ (by omega)]
    by_cases he : i = e
    · subst he; simp [hi]
    · simp [he]

theorem eq_zero_iff (b : BitVec w) : b = 0 ↔ ∀ i, b.getLsbD i = false := by
  constructor
  · rintro rfl i; simp
  · intro h
    apply BitVec.eq_of_getLsbD_eq
    intro i hi
    simpa using h i

theorem shift_and_one_ne_zero (b : BitVec w) (e : ℕ) :
    (b >>> e) &&& 1#w ≠ 0 ↔ b.getLsbD e = true := by
  rw [Ne,eq_zero_iff,not_forall]
  constructor
  · rintro ⟨i,hi⟩
    simp only [BitVec.getLsbD_and,BitVec.getLsbD_ushiftRight,BitVec.getLsbD_one,
      Bool.not_eq_false,Bool.and_eq_true,decide_eq_true_eq] at hi
    obtain ⟨hb,-,rfl⟩ := hi
    simpa using hb
  · intro hb
    have hw : e < w := BitVec.lt_of_getLsbD hb
    refine ⟨0,?_⟩
    simp [hb,BitVec.getLsbD_one]
    omega

theorem and_bit_eq_zero (b : BitVec w) {e : ℕ} (he : e < w) :
    b &&& bit w e = 0 ↔ b.getLsbD e = false := by
  simp only [eq_zero_iff,BitVec.getLsbD_and,getLsbD_bit,he,decide_true,Bool.and_true]
  constructor
  · intro h
    simpa using h e
  · intro hb i
    by_cases hi : i = e
    · subst hi; simp [hb]
    · simp [hi]

/-- Clearing bit `e`. -/
def clear (b : BitVec w) (e : ℕ) : BitVec w := b &&& ~~~bit w e

@[simp] theorem getLsbD_clear (b : BitVec w) (e i : ℕ) :
    (clear b e).getLsbD i = (b.getLsbD i && decide (i ≠ e)) := by
  by_cases hi : i < w
  · simp only [clear,BitVec.getLsbD_and,BitVec.getLsbD_not,getLsbD_bit,hi,decide_true,Bool.true_and]
    by_cases he : i = e
    · subst he; simp [hi]
    · simp [he]
  · simp [BitVec.getLsbD_of_ge _ _ (Nat.not_lt.mp hi)]

/-- The word whose set bits are the members of a list. -/
def ofBits (w : ℕ) (l : List ℕ) : BitVec w := l.foldl (fun b e => b ||| bit w e) 0

theorem getLsbD_foldl_bit (l : List ℕ) (b : BitVec w) (i : ℕ) :
    (l.foldl (fun b e => b ||| bit w e) b).getLsbD i =
      (b.getLsbD i || (decide (i ∈ l) && decide (i < w))) := by
  induction l generalizing b with
  | nil => simp
  | cons e l ih =>
    rw [List.foldl_cons,ih,BitVec.getLsbD_or,getLsbD_bit]
    by_cases he : i = e
    · subst he
      by_cases hi : i < w <;> simp [hi]
    · simp [he]

@[simp] theorem getLsbD_ofBits (l : List ℕ) (i : ℕ) :
    (ofBits w l).getLsbD i = (decide (i ∈ l) && decide (i < w)) := by
  simp [ofBits,getLsbD_foldl_bit]

def popcount (b : BitVec w) : ℕ := (List.range w).countP b.getLsbD

theorem card_bits (b : BitVec w) :
    ((Finset.range w).filter fun e => b.getLsbD e = true).card = popcount b := by
  have hlist : (List.range w).filter (fun e => decide (b.getLsbD e = true)) =
      (List.range w).filter b.getLsbD := by simp
  rw [popcount,List.countP_eq_length_filter,← hlist]
  rfl

theorem popcount_ofBits {l : List ℕ} (hnodup : l.Nodup) (hlt : ∀ e ∈ l, e < w) :
    popcount (ofBits w l) = l.length := by
  rw [← card_bits,← List.toFinset_card_of_nodup hnodup]
  congr 1
  ext e
  simp only [Finset.mem_filter,Finset.mem_range,getLsbD_ofBits,Bool.and_eq_true,decide_eq_true_eq,
    List.mem_toFinset]
  constructor
  · intro h
    exact h.2.1
  · intro he
    exact ⟨hlt e he,he,hlt e he⟩

/-- The positions below `n` whose bit is set, in increasing order. -/
def bits (b : BitVec w) (n : ℕ) : List ℕ := (List.range n).filter fun e => b.getLsbD e

@[simp] theorem mem_bits {b : BitVec w} {n e : ℕ} : e ∈ bits b n ↔ e < n ∧ b.getLsbD e = true := by
  simp [bits]

theorem bits_sorted (b : BitVec w) (n : ℕ) : (bits b n).Pairwise (· < ·) :=
  List.pairwise_lt_range.filter _

def low (b : BitVec w) (n : ℕ) : BitVec w := BitVec.ofNat w (b.toNat % 2 ^ n)

@[simp] theorem getLsbD_low (b : BitVec w) (n i : ℕ) :
    (low b n).getLsbD i = (b.getLsbD i && decide (i < n)) := by
  by_cases hi : i < w
  · rw [low,BitVec.getLsbD_ofNat,Nat.testBit_mod_two_pow]
    simp [hi,BitVec.getLsbD,Bool.and_comm]
  · simp [BitVec.getLsbD_of_ge _ _ (Nat.not_lt.mp hi)]

theorem ofBits_bits (b : BitVec w) (n : ℕ) : ofBits w (bits b n) = low b n := by
  apply BitVec.eq_of_getLsbD_eq
  intro i hi
  rw [getLsbD_ofBits,getLsbD_low]
  simp [hi,Bool.and_comm]

theorem bits_eq_nil {b : BitVec w} {n : ℕ} : bits b n = [] ↔ low b n = 0 := by
  rw [eq_zero_iff,List.eq_nil_iff_forall_not_mem]
  apply forall_congr'
  intro i
  rw [mem_bits,getLsbD_low,Bool.and_eq_false_iff]
  by_cases hi : i < n <;> simp [hi]

end BitWords

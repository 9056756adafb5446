import Mathlib

/-! Byte buffers as a size and a total accessor that is zero past the end.
The size is available without touching the bytes, and extensionality is pointwise. -/
namespace ByteBuffers

abbrev Byte := BitVec 8

structure Bytes where
  size : ℕ
  get : ℕ → Byte
  get_out : ∀ i, size ≤ i → get i = 0

namespace Bytes

@[ext] theorem ext {a b : Bytes} (hs : a.size = b.size)
    (hg : ∀ i < a.size, a.get i = b.get i) : a = b := by
  rcases a with ⟨n,f,hf⟩
  rcases b with ⟨m,g,hg'⟩
  obtain rfl : n = m := hs
  have hfg : f = g := by
    funext i
    by_cases hi : i < n
    · exact hg i hi
    · rw [hf i (by omega),hg' i (by omega)]
  subst hfg
  rfl

def tabulate (n : ℕ) (f : ℕ → Byte) : Bytes where
  size := n
  get i := if i < n then f i else 0
  get_out i hi := by simp [Nat.not_lt.mpr hi]

@[simp] theorem tabulate_size (n : ℕ) (f : ℕ → Byte) : (tabulate n f).size = n := rfl

theorem tabulate_get {n i : ℕ} (f : ℕ → Byte) (hi : i < n) : (tabulate n f).get i = f i := by
  simp [tabulate,hi]

def empty : Bytes := tabulate 0 fun _ => 0

def zeros (n : ℕ) : Bytes := tabulate n fun _ => 0

@[simp] theorem empty_size : empty.size = 0 := rfl
@[simp] theorem zeros_size (n : ℕ) : (zeros n).size = n := rfl
@[simp] theorem zeros_get (n i : ℕ) : (zeros n).get i = 0 := by simp [zeros,tabulate]

/-- Add `p` into `d` byte by byte, modulo 256; the length of `d` stays. -/
def addInto (d p : Bytes) : Bytes :=
  tabulate d.size fun i => if i < p.size then d.get i + p.get i else d.get i

@[simp] theorem addInto_size (d p : Bytes) : (addInto d p).size = d.size := rfl

theorem addInto_get (d p : Bytes) (hp : p.size = d.size) (i : ℕ) :
    (addInto d p).get i = d.get i + p.get i := by
  by_cases hi : i < d.size
  · simp [addInto,tabulate,hi,hp]
  · rw [get_out _ i (by simpa using hi),d.get_out i (by omega),p.get_out i (by omega)]
    rfl

def take (n : ℕ) (b : Bytes) : Bytes := tabulate (min n b.size) b.get

@[simp] theorem take_size (n : ℕ) (b : Bytes) : (take n b).size = min n b.size := rfl

theorem take_self (b : Bytes) : take b.size b = b := by
  ext i hi
  · simp
  · simp only [take_size,min_self] at hi
    rw [take,min_self,tabulate_get _ hi]

/-- The byte-wise sum of a list of buffers, at length `n`. -/
def sum (n : ℕ) (ps : List Bytes) : Bytes := ps.foldl addInto (zeros n)

@[simp] theorem sum_nil (n : ℕ) : sum n [] = zeros n := rfl

theorem sum_concat (n : ℕ) (ps : List Bytes) (p : Bytes) :
    sum n (ps ++ [p]) = addInto (sum n ps) p := by simp [sum]

@[simp] theorem sum_size (n : ℕ) (ps : List Bytes) : (sum n ps).size = n := by
  induction ps using List.reverseRecOn with
  | nil => rfl
  | append_singleton ps p ih => rw [sum_concat,addInto_size,ih]

end Bytes
end ByteBuffers
